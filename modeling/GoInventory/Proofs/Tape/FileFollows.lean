import GoInventory.Proofs.Syntax.FileSoundness
import GoInventory.Proofs.Tape.TypeFollows

/-!
# Files are read to their end

Every token sequence is read to an end: as a file with no token left, or to an
error, and no reader crashes (`tokens_readSafely`). The loops that pass over
bodies and initializers take a token in each turn, and they keep the count of
open brackets that the parsers keep, so it is not lowered below zero.
-/

namespace GoInventory

/-- Pass over a body in which `depth` braces are open. -/
def Parser.skipBraces (start : Span) (depth : Nat) : Parser Unit := fun c =>
  match blockEnd? depth c.rest with
  | none => .error ⟨start, .unclosedBody⟩
  | some (last, rest) => .ok ((), c.after last rest)

namespace TapeReader

open TokenReader
open OnTape (closeBraces scanExpressions)

variable {k : Nat}

/-! ## Regions that are passed over -/

section Regions

variable {rounds n : Nat} {t : Tape}

/-- At the end of the tape a brace is missing, since at least one is open. -/
theorem closeBraces_of_none {start : Span} {depth : Nat} (h : t.tokens[t.pos]? = none) :
    closeBraces start (depth + 1) (n + 1) rounds t
      = .error (.rejected ⟨start, .unclosedBody⟩) := by
  rw [closeBraces, if_neg (Nat.succ_ne_zero depth), bind_ok (bump_of_none h)]
  rfl

/-- A token is taken, and the count goes up or down with the braces. It is at
least one, so lowering it is safe. -/
theorem closeBraces_of_some {u : Token} {start : Span} {depth : Nat}
    (h : t.tokens[t.pos]? = some u) :
    closeBraces start (depth + 1) (n + 1) rounds t
      = (if u.tok = .op .openBrace then closeBraces start (depth + 2) n
      else if u.tok = .op .closeBrace then closeBraces start depth n
      else closeBraces start (depth + 1) n : TapeReader Unit) rounds (t.after u) := by
  rw [closeBraces, if_neg (Nat.succ_ne_zero depth), bind_ok (bump_of_some h)]
  rfl

end Regions

/-- Braces are closed as far as the parser finds them closed. Each turn takes
a token, and the count is one ahead of the parser's, so it is not zero when
it is lowered. -/
theorem ends_closeBraces (start : Span) (rounds : Nat) (tokens : List Token) :
    ∀ {t : Tape} (depth n : Nat),
    t.cursor.rest = tokens → tokens.length < n →
    Ends t 0 (closeBraces start (depth + 1) n rounds t)
      (Parser.skipBraces start depth t.cursor) := by
  induction tokens with
  | nil =>
    intro t depth n hrest hn
    obtain ⟨n, rfl⟩ := Nat.exists_eq_add_of_le' (Nat.zero_lt_of_lt hn)
    rw [closeBraces_of_none (Tape.get_of_cursor_nil hrest), Parser.skipBraces, hrest]
    exact .error
  | cons u tokens ih =>
    intro t depth n hrest hn
    rw [List.length_cons] at hn
    obtain ⟨n, rfl⟩ := Nat.exists_eq_add_of_le' (Nat.zero_lt_of_lt hn)
    have hu := Tape.get_of_cursor hrest
    have hnext := Tape.cursor_after hrest
    -- a token that is passed over leaves the search to the tokens behind it
    have hpass : ∀ inner, blockEnd? depth (u :: tokens) = blockEnd? inner tokens →
        Ends t 0 (closeBraces start (inner + 1) n rounds (t.after u))
          (Parser.skipBraces start depth t.cursor) := by
      intro inner hinner
      have hskip : Parser.skipBraces start depth t.cursor
          = Parser.skipBraces start inner (t.after u).cursor := by
        unfold Parser.skipBraces
        rw [hrest, hnext, hinner]
        rfl
      rw [hskip]
      exact (ih inner n hnext (by omega)).of_after
    rw [closeBraces_of_some hu]
    by_cases hopen : u.tok = .op .openBrace
    · rw [if_pos hopen]
      exact hpass (depth + 1) (by simp [blockEnd?, hopen])
    rw [if_neg hopen]
    by_cases hclose : u.tok = .op .closeBrace
    · rw [if_pos hclose]
      cases depth with
      | zero =>
        have hlast : blockEnd? 0 (u :: tokens) = some (u, tokens) := by
          simp [blockEnd?, hclose]
        have hskip : Parser.skipBraces start 0 t.cursor
            = .ok ((), (t.after u).cursor) := by
          unfold Parser.skipBraces
          rw [hrest, hlast, ← hnext]
          rfl
        have hmore : 1 ≤ n := by omega
        obtain ⟨n, rfl⟩ := Nat.exists_eq_add_of_le' hmore
        rw [closeBraces, if_pos rfl, hskip]
        exact .ok rfl (Nat.le_succ _) (.after hu)
      | succ outer => exact hpass outer (by simp [blockEnd?, hclose])
    · rw [if_neg hclose]
      refine hpass depth ?_
      cases depth <;> simp [blockEnd?, hclose]

/-- A body is passed over within as many rounds as there are tokens left. -/
theorem follows_skipBody (start : Span) :
    Follows k 0 (skipBody start) (skipBody start) := by
  intro rounds t _ hrounds _
  refine ends_closeBraces start rounds _ 0 rounds rfl ?_
  rwa [t.length_cursor]

theorem follows_block : Follows k 0 block block := by
  refine follows_here.bind fun start => ?_
  refine follows_advance.bind fun _ => ?_
  exact (follows_skipBody start).bind fun _ => follows_since start

/-- The count of open brackets and the tokens taken are those of the parser. -/
theorem scanExpressions_forward (rounds : Nat) (tokens : List Token) :
    ∀ {t : Tape} (depth taken n : Nat),
    t.cursor.rest = tokens → tokens.length < n →
    scanExpressions depth taken n rounds t
      = .ok (((ExprExtent.scan depth tokens).depth,
      taken + (ExprExtent.scan depth tokens).taken.length),
        t.forward (ExprExtent.scan depth tokens).taken) := by
  induction tokens with
  | nil =>
    intro t depth taken n hrest hn
    obtain ⟨n, rfl⟩ := Nat.exists_eq_add_of_le' (Nat.zero_lt_of_lt hn)
    rw [scanExpressions, bind_ok (peek?_of_none (Tape.get_of_cursor_nil hrest))]
    rfl
  | cons u tokens ih =>
    intro t depth taken n hrest hn
    rw [List.length_cons] at hn
    obtain ⟨n, rfl⟩ := Nat.exists_eq_add_of_le' (Nat.zero_lt_of_lt hn)
    have hu := Tape.get_of_cursor hrest
    have hpass : ∀ inner, ExprExtent.scan depth (u :: tokens)
      = (ExprExtent.scan inner tokens).cons u →
        (OnTape.advance >>= fun _ =>
          scanExpressions inner (taken + 1) n : TapeReader (Nat × Nat)) rounds t
          = .ok (((ExprExtent.scan depth (u :: tokens)).depth,
            taken + (ExprExtent.scan depth (u :: tokens)).taken.length),
            t.forward (ExprExtent.scan depth (u :: tokens)).taken) := by
      intro inner hinner
      rw [bind_ok (advance_of_some hu),
        ih inner (taken + 1) n (Tape.cursor_after hrest) (by omega), hinner]
      dsimp only [ExprExtent.cons]
      rw [Tape.forward_cons, List.length_cons, Nat.add_assoc, Nat.add_comm 1]
    rw [scanExpressions, bind_ok (peek?_of_some hu)]
    dsimp only
    rcases u.tok.bracket_cases with ho | ⟨ho, hc⟩ | ⟨ho, hc⟩
    · rw [if_pos ho]
      exact hpass (depth + 1) (by simp [ExprExtent.scan, ho])
    · rw [if_neg (by simp [ho]), if_pos hc]
      cases depth with
      | zero =>
        have hstop : ExprExtent.scan 0 (u :: tokens) = ⟨[], u :: tokens, 0⟩ := by
          simp [ExprExtent.scan, ho, hc]
        rw [hstop]
        rfl
      | succ outer => exact hpass outer (by simp [ExprExtent.scan, ho, hc])
    · have hplain : ExprExtent.scan depth (u :: tokens) = if u.tok
        == .op .semicolon && depth == 0 then
          ⟨[], u :: tokens, 0⟩ else (ExprExtent.scan depth tokens).cons u := by
        cases depth <;> simp [ExprExtent.scan, ho, hc]
      rw [if_neg (by simp [ho]), if_neg (by simp [hc])]
      by_cases hstop : u.tok = .op .semicolon ∧ depth = 0
      · rw [if_pos hstop, hplain, if_pos (by simpa using hstop), hstop.2]
        rfl
      · rw [if_neg hstop]
        refine hpass depth ?_
        rw [hplain, if_neg (by simpa using hstop)]

/-- Initializers are passed over within as many rounds as there are tokens left. -/
theorem follows_skipExpressions (start : Span) :
    Follows k 0 (skipExpressions start) (skipExpressions start) := by
  intro rounds t _ hrounds hin
  have hsplit := (Parser.scan_append t.cursor.rest 0).symm
  have hlength : t.cursor.rest.length < rounds := by rwa [t.length_cursor]
  have hscan : OnTape.bounded (scanExpressions 0 0) rounds t = _ :=
    scanExpressions_forward rounds t.cursor.rest 0 0 rounds rfl hlength
  show Ends t 0 (OnTape.skipExpressions start rounds t)
    (AtCursor.skipExpressions start t.cursor)
  unfold OnTape.skipExpressions AtCursor.skipExpressions
  rw [bind_ok hscan]
  dsimp only
  generalize ExprExtent.scan 0 t.cursor.rest = extent at hsplit
  obtain ⟨run, rest, depth⟩ := extent
  dsimp only at hsplit ⊢
  by_cases hdepth : depth > 0
  · rw [if_pos hdepth, if_pos hdepth]
    exact .error
  rw [if_neg hdepth, if_neg hdepth, Nat.zero_add]
  by_cases hrun : run = []
  · rw [hrun]
    exact follows_unexpected .expression rounds t (Nat.le_refl _) hrounds hin
  · have hend := ends_forward () hsplit hin (Nat.zero_le _)
    rw [List.getLast?_eq_some_getLast hrun] at hend
    rw [if_neg (by simpa using hrun), List.getLast?_eq_some_getLast hrun]
    exact hend

theorem follows_expressions : Follows k 0 expressions expressions := by
  refine follows_here.bind fun start => ?_
  exact (follows_skipExpressions start).bind fun _ => follows_since start

/-! ## Specs -/

/-- An import need not have a name. -/
theorem follows_importName? : Follows k 0 importName? importName? := by
  refine (follows_peek? 0).bind fun next => ?_
  cases next with
  | none => exact follows_pure none
  | some tok =>
    cases tok with
    | ident name => exact follows_ident.any.bind fun name => follows_pure _
    | op o =>
      cases o with
      | dot =>
        refine follows_here.bind fun span => ?_
        exact follows_advance.bind fun _ => follows_pure _
      | _ => exact follows_pure none
    | _ => exact follows_pure none

/-- An import takes its path. -/
theorem follows_importSpec : Follows k 1 importSpec importSpec := by
  refine follows_importName?.bind fun name => ?_
  exact follows_stringLit.bind_then fun path => follows_pure _

/-- A value declaration need not have a type. -/
theorem follows_valueType? : Follows k 0 valueType? valueType? := by
  refine (follows_peek? 0).bind fun next => ?_
  cases next with
  | none => exact follows_pure none
  | some tok =>
    refine .ite (fun _ => ?_) fun _ => follows_pure none
    exact follows_typeExpr.any.bind fun type => follows_pure _

theorem follows_values? : Follows k 0 values? values? := by
  refine follows_eat (fun j hj => ?_) (follows_pure none)
  exact follows_expressions.bind fun span => follows_pure _

/-- A value declaration takes at least one name. -/
theorem follows_valueSpec : Follows k 1 valueSpec valueSpec := by
  refine follows_identList.bind_then fun names => ?_
  refine follows_valueType?.bind fun type => ?_
  exact follows_values?.bind fun values => follows_pure _

/-- The check for a missing value takes no token. -/
theorem follows_constSpec (grouped : Bool) :
    Follows k 1 (constSpec grouped) (constSpec grouped) :=
  follows_valueSpec.bind_then fun _ => .ite (fun _ => follows_unexpected _)
    fun _ => follows_pure _

theorem follows_varSpec : Follows k 1 varSpec varSpec :=
  follows_valueSpec.bind_then fun _ => .ite (fun _ => follows_unexpected _)
    fun _ => follows_pure _

/-- Both tell type parameters from a length by the same tokens. -/
theorem follows_specTypeParameters :
    Follows k 0 specTypeParameters specTypeParameters := by
  refine (follows_ask Tape.cursor_atTypeParameters).bind fun declared => ?_
  exact .ite (fun _ => (follows_typeParameters follows_typeExpr).any)
    fun _ => follows_pure []

/-- A type declaration takes its name. -/
theorem follows_typeSpec : Follows k 1 typeSpec typeSpec := by
  refine follows_ident.bind_then fun name => ?_
  refine follows_specTypeParameters.bind fun typeParams => ?_
  refine (follows_eaten _).bind fun isAlias => ?_
  exact follows_typeExpr.any.bind fun type => follows_pure _

/-! ## Declarations -/

/-- A spec in parentheses is not looked for at the end of the tape. -/
theorem follows_groupedSpec {σ : Type} {spec : TapeReader σ} {spec' : Parser σ}
    (hspec : Follows k 1 spec spec') :
    Follows k 1 (groupedSpec spec) (groupedSpec spec') := by
  refine (follows_peek? 0).bind fun next => ?_
  cases next with
  | none => exact follows_unexpected .groupClose
  | some _ => exact hspec

/-- A keyword is taken before its specs. -/
theorem followsAt_group {σ : Type} {spec : Bool → TapeReader σ}
    {spec' : Bool → Parser σ} {rounds : Nat} {t : Tape} {u : Token}
    (hu : t.tokens[t.pos]? = some u) (hk : t.left ≤ k)
    (hspec : ∀ grouped, Follows k 1 (spec grouped) (spec' grouped)) :
    FollowsAt rounds t 1 (group spec) (group spec') := by
  refine followsAt_opened hu (Nat.le_succ_of_le hk) fun start => ?_
  refine follows_eat (fun j hj => ?_) ?_
  · have hgrouped :=
      follows_groupedSpec ((hspec true).mono (show j ≤ k by omega) (Nat.le_refl 1))
    refine (follows_memberList hgrouped).any.bind fun specs => ?_
    exact follows_spanned start _
  · refine (hspec false).any.bind fun only => ?_
    exact follows_spanned start _

/-- How many groups a receiver has is counted alike. -/
theorem follows_receiver : Follows k 0 receiver receiver := by
  refine follows_here.bind fun span => ?_
  refine (follows_parameters follows_typeExpr).bind fun fields => ?_
  rcases fields with _ | ⟨first, more⟩
  · exact follows_fail span _
  · cases more with
    | nil => exact follows_pure first
    | cons _ _ => exact follows_fail span _

theorem follows_receiver? : Follows k 0 receiver? receiver? := by
  refine (follows_isNext _).bind fun received => ?_
  refine .ite (fun _ => ?_) fun _ => follows_pure none
  exact follows_receiver.bind fun field => follows_pure _

theorem follows_funcTypeParameters :
    Follows k 0 funcTypeParameters funcTypeParameters := by
  refine (follows_isNext _).bind fun generic => ?_
  exact .ite (fun _ => (follows_typeParameters follows_typeExpr).any)
    fun _ => follows_pure []

theorem follows_body? : Follows k 0 body? body? := by
  refine (follows_isNext _).bind fun embraced => ?_
  refine .ite (fun _ => ?_) fun _ => follows_pure none
  exact follows_block.bind fun span => follows_pure _

/-- A function takes its keyword. -/
theorem followsAt_funcDecl {rounds : Nat} {t : Tape} {u : Token}
    (hu : t.tokens[t.pos]? = some u) (hk : t.left ≤ k) :
    FollowsAt rounds t 1 funcDecl funcDecl := by
  refine followsAt_opened hu (Nat.le_succ_of_le hk) fun start => ?_
  refine follows_receiver?.bind fun receiver => ?_
  refine follows_ident.any.bind fun name => ?_
  refine follows_funcTypeParameters.bind fun typeParams => ?_
  refine (follows_signature follows_typeExpr).bind fun sig => ?_
  refine follows_body?.bind fun body => ?_
  exact follows_spanned start _

/-- **A declaration takes a token**, so the file comes to an end. -/
theorem follows_decl : Follows k 1 decl decl := by
  intro rounds t hk
  -- making the declaration of what was read takes no further tokens
  have hmade : ∀ {σ : Type} {m : TapeReader σ} {p : Parser σ} (make : σ → Decl),
    FollowsAt rounds t 1 m p →
      FollowsAt rounds t 1 (m >>= fun a => pure (make a))
        (p >>= fun a => pure (make a)) := fun make hm =>
    hm.bind fun a t' _ _ _ => follows_pure (make a) rounds t' (Nat.le_refl _)
  refine followsAt_ask (t.cursor_peek? 0) ?_
  unfold Tape.peek?
  cases hu : t.tokens[t.pos]? with
  | none => exact follows_unexpected .declaration rounds t hk
  | some u =>
    obtain ⟨start, tok, stop⟩ := u
    cases tok with
    | keyword word =>
      cases word with
      | «import» => exact hmade _ (followsAt_group hu hk fun _ => follows_importSpec)
      | const => exact hmade _ (followsAt_group hu hk follows_constSpec)
      | var => exact hmade _ (followsAt_group hu hk fun _ => follows_varSpec)
      | type => exact hmade _ (followsAt_group hu hk fun _ => follows_typeSpec)
      | func => exact hmade _ (followsAt_funcDecl hu hk)
      | _ => exact follows_unexpected .declaration rounds t hk
    | _ => exact follows_unexpected .declaration rounds t hk

/-! ## Files -/

/-- Each round takes a semicolon, or is the last one. -/
theorem follows_semicolons : Follows k 0 semicolons semicolons := by
  refine follows_bounded fun n => ?_
  induction n with
  | zero => intro bound j hj; omega
  | succ n ih =>
    intro bound j hj hbound hk
    obtain ⟨bound, rfl⟩ := Nat.exists_eq_add_of_le' (Nat.zero_lt_of_lt hbound)
    exact follows_eat (fun j' hj' => ih bound j' (by omega) (by omega) (by omega))
      (follows_pure ())

/-- Each round takes a declaration, or is the last one. -/
theorem follows_decls : Follows k 0 (declList decl) (declList decl) := by
  refine follows_bounded fun n => ?_
  induction n with
  | zero => intro bound j hj; omega
  | succ n ih =>
    intro bound j hj hbound hk
    obtain ⟨bound, rfl⟩ := Nat.exists_eq_add_of_le' (Nat.zero_lt_of_lt hbound)
    refine follows_semicolons.bind fun _ => ?_
    refine (follows_peek? 0).bind fun next => ?_
    cases next with
    | none => exact follows_pure []
    | some tok =>
      refine (follows_decl.bind_taken fun j' first hj' => ?_).any
      refine (follows_terminator _).bind fun _ => ?_
      exact (ih bound j' (by omega) (by omega) (by omega)).bind
        fun others => follows_pure _

/-- **A file is read by position as it is by the cursor.** -/
theorem follows_file : Follows k 0 TapeReader.file Parser.file := by
  refine follows_semicolons.bind fun _ => ?_
  refine (follows_expect _ _).any.bind fun _ => ?_
  refine follows_ident.any.bind fun package => ?_
  refine (follows_terminator _).bind fun _ => ?_
  exact follows_decls.bind fun all => follows_pure _

/-- From this position on, the parts of a file are read to an end, and those
that are read take a token. -/
structure Progress (rounds : Nat) (t : Tape) : Prop where
  type : Ends t 1 ((typeExpr : TapeReader TypeExpr) rounds t)
    ((typeExpr : Parser TypeExpr) t.cursor)
  paramEntry : Ends t 1 ((paramEntry typeExpr : TapeReader ParamEntry) rounds t)
    ((paramEntry typeExpr : Parser ParamEntry) t.cursor)
  structMember :
    Ends t 1 ((structMember typeExpr : TapeReader (Field TypeExpr)) rounds t)
    ((structMember typeExpr : Parser (Field TypeExpr)) t.cursor)
  constraint : Ends t 1 ((constraint typeExpr : TapeReader TypeExpr) rounds t)
    ((constraint typeExpr : Parser TypeExpr) t.cursor)
  typeParameters :
    Ends t 1 ((typeParameters typeExpr : TapeReader (List (Field TypeExpr))) rounds t)
    ((typeParameters typeExpr : Parser (List (Field TypeExpr))) t.cursor)
  importSpec : Ends t 1 ((importSpec : TapeReader ImportSpec) rounds t)
    ((importSpec : Parser ImportSpec) t.cursor)
  constSpec : ∀ grouped,
    Ends t 1 ((constSpec grouped : TapeReader ValueSpec) rounds t)
    ((constSpec grouped : Parser ValueSpec) t.cursor)
  varSpec : Ends t 1 ((varSpec : TapeReader ValueSpec) rounds t)
    ((varSpec : Parser ValueSpec) t.cursor)
  typeSpec : Ends t 1 ((typeSpec : TapeReader TypeSpec) rounds t)
    ((typeSpec : Parser TypeSpec) t.cursor)

/-- The parts of a file are read to an end from wherever they may start. -/
theorem progress {rounds : Nat} {t : Tape} (hin : t.InRange)
    (hrounds : t.left < rounds) : Progress rounds t where
  type := follows_typeExpr rounds t (Nat.le_refl _) hrounds hin
  paramEntry :=
    follows_paramEntry follows_typeExpr rounds t (Nat.le_refl _) hrounds hin
  structMember :=
    follows_structMember follows_typeExpr rounds t (Nat.le_refl _) hrounds hin
  constraint :=
    follows_constraint follows_typeExpr rounds t (Nat.le_refl _) hrounds hin
  typeParameters :=
    follows_typeParameters follows_typeExpr rounds t (Nat.le_refl _) hrounds hin
  importSpec := follows_importSpec rounds t (Nat.le_refl _) hrounds hin
  constSpec grouped := follows_constSpec grouped rounds t (Nat.le_refl _) hrounds hin
  varSpec := follows_varSpec rounds t (Nat.le_refl _) hrounds hin
  typeSpec := follows_typeSpec rounds t (Nat.le_refl _) hrounds hin

end TapeReader

/-- Behind a file no token is left. -/
theorem Parser.file_rest {c c' : Cursor} {file : SourceFile}
    (h : Parser.file c = .ok (file, c')) : c'.rest = [] := by
  obtain ⟨_, c₁, -, h₁⟩ := bind_eq_ok_iff.mp h
  obtain ⟨_, c₂, -, h₂⟩ := bind_eq_ok_iff.mp h₁
  obtain ⟨_, c₃, -, h₃⟩ := bind_eq_ok_iff.mp h₂
  obtain ⟨_, c₄, -, h₄⟩ := bind_eq_ok_iff.mp h₃
  obtain ⟨decls, c₅, hdecls, h₅⟩ := bind_eq_ok_iff.mp h₄
  cases h₅
  obtain ⟨_, -, -, hrest⟩ := declItems_ok (F := .anywhere) _ hdecls trivial
  exact hrest

/-- How a sequence of tokens is read in this number of rounds: as a file,
with the position behind the last token, or to a syntax error; and whatever
part of it is read from whatever position, that part takes a token and no
more than there are. -/
structure ReadSafely (tokens : Array Token) (sourceLength rounds : Nat) : Prop where
  accepted : ∀ file, parseTokens tokens.toList sourceLength = .ok file →
    ∃ t, TapeReader.file rounds (.start tokens sourceLength) = .ok (file, t) ∧
      t.tokens = tokens ∧ t.pos = tokens.size
  rejected : ∀ e, parseTokens tokens.toList sourceLength = .error e →
    TapeReader.file rounds (.start tokens sourceLength) = .error (.rejected e)
  progress : ∀ t : Tape, t.tokens = tokens → t.pos ≤ tokens.size →
    TapeReader.Progress rounds t

/-- **Every sequence of tokens is read to an end, without a crash**, in any
number of rounds that is greater than the number of tokens. -/
theorem tokens_readSafely (tokens : Array Token) (sourceLength rounds : Nat)
    (hrounds : tokens.size < rounds) : ReadSafely tokens sourceLength rounds := by
  have hend : TapeReader.Ends _ 0 _
      (Parser.file (Tape.start tokens sourceLength).cursor) :=
    TapeReader.follows_file rounds (.start tokens sourceLength) (Nat.le_refl _)
      hrounds (Nat.zero_le _)
  have hparse : parseTokens tokens.toList sourceLength
      = (Parser.file (Tape.start tokens sourceLength).cursor).map (·.1) := rfl
  refine ⟨fun file hfile => ?_, fun e herror => ?_, fun t htokens hpos => ?_⟩
  · rw [hparse] at hfile
    generalize TapeReader.file rounds (.start tokens sourceLength) = r, hread :
      Parser.file _ = r' at hend hfile ⊢
    cases hend with
    | error => cases hfile
    | @ok file t htokens hpos hin =>
      cases hfile
      refine ⟨t, rfl, htokens, ?_⟩
      have hleft := t.length_cursor
      rw [Parser.file_rest hread, List.length_nil] at hleft
      unfold Tape.InRange at hin
      unfold Tape.left at hleft
      rw [htokens] at hin hleft
      show t.pos = (Tape.start tokens sourceLength).tokens.size
      omega
  · rw [hparse] at herror
    generalize TapeReader.file rounds (.start tokens sourceLength) = r, Parser.file _
      = r' at hend herror ⊢
    cases hend with
    | ok => cases herror
    | error =>
      cases herror
      rfl
  · refine TapeReader.progress (by rwa [Tape.InRange, htokens]) ?_
    unfold Tape.left
    rw [htokens]
    omega

/-- Tokens of a file with a piece of text that is no token, a closing bracket
too many, and no semicolon at the end. -/
def sampleTape : Array Token :=
  #[⟨0, .keyword .package, 7⟩, ⟨8, .ident "p", 9⟩, ⟨9, .op .semicolon, 9⟩,
    ⟨10, .keyword .var, 13⟩,
    ⟨14, .ident "v", 15⟩, ⟨16, .op .openBracket, 17⟩, ⟨17, .error, 18⟩,
    ⟨18, .op .closeParen, 19⟩,
    ⟨19, .op .closeBracket, 20⟩]

/-- The sample is read in ten rounds, to a syntax error. -/
theorem tokens_readSafely_sampleTape :
    sampleTape.size < 10 ∧ ReadSafely sampleTape 20 10 ∧
    (parseTokens sampleTape.toList 20).isOk = false :=
  ⟨by decide, tokens_readSafely sampleTape 20 10 (by decide), by decide +kernel⟩

end GoInventory
