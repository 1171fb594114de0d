import GoInventory.Proofs.Syntax.FileSoundness
import GoInventory.Proofs.Syntax.TypeMoving

/-!
# Declarations in another place

Every parser of declarations moves (`moves_decl`). Bodies and initializers are
passed over by counting brackets. A body ends at the brace that closes it, so
what follows is not looked at. An initializer may run to the end of the source,
but not over a semicolon that stands outside all brackets, so a last semicolon
ends it, or it is found to be unclosed (`scan_ends`).
-/

namespace GoInventory

/-! ## What is skipped -/

/-- At each token the search for the end of a body stops, or it goes on
at some depth. -/
theorem blockEnd?_step (tok : Tok) (depth : Nat) :
    (tok = .op .closeBrace ∧ ∀ t rest, t.tok = tok →
      blockEnd? depth (t :: rest) = some (t, rest)) ∨
    ∃ inner, ∀ t rest, t.tok = tok →
      blockEnd? depth (t :: rest) = blockEnd? inner rest := by
  by_cases hopen : tok = .op .openBrace
  · exact Or.inr ⟨depth + 1, fun t rest ht => by simp [blockEnd?, ht, hopen]⟩
  by_cases hclose : tok = .op .closeBrace
  · cases depth with
    | zero => exact Or.inl ⟨hclose, fun t rest ht => by simp [blockEnd?, ht, hclose]⟩
    | succ outer =>
      exact Or.inr ⟨outer, fun t rest ht => by simp [blockEnd?, ht, hclose]⟩
  · refine Or.inr ⟨depth, fun t rest ht => ?_⟩
    rw [← ht] at hopen hclose
    cases depth <;> simp [blockEnd?, hclose]

/-- The end of a body is a brace, and it is found when more tokens follow. -/
theorem blockEnd?_mapOffsets {tokens : List Token} (g : Nat → Nat) (tail : List Token) :
    ∀ {depth : Nat} {last : Token} {rest : List Token},
      blockEnd? depth tokens = some (last, rest) →
      last.tok = .op .closeBrace ∧
      blockEnd? depth (tokens.map (Token.mapOffsets g) ++ tail)
        = some (last.mapOffsets g, rest.map (Token.mapOffsets g) ++ tail) := by
  induction tokens with
  | nil => intro depth last rest h; cases h
  | cons t tokens ih =>
    intro depth last rest h
    rw [List.map_cons, List.cons_append]
    rcases blockEnd?_step t.tok depth with ⟨hclose, hstop⟩ | ⟨inner, hstep⟩
    · rw [hstop t tokens rfl] at h
      cases h
      exact ⟨hclose, hstop _ _ rfl⟩
    · rw [hstep t tokens rfl] at h
      rw [hstep (t.mapOffsets g) _ rfl]
      exact ih h

namespace ExprExtent

/-- At each token an initializer stops, or it goes on at some depth, which is
not the outermost one behind a semicolon. -/
theorem scan_step (tok : Tok) (depth : Nat) :
    (∀ t rest, t.tok = tok → scan depth (t :: rest) = ⟨[], t :: rest, 0⟩) ∨
    ∃ inner, (inner = 0 → tok ≠ .op .semicolon) ∧
      ∀ t rest, t.tok = tok → scan depth (t :: rest) = (scan inner rest).cons t := by
  rcases tok.bracket_cases with ho | ⟨ho, hc⟩ | ⟨ho, hc⟩
  · refine Or.inr ⟨depth + 1, nofun, fun t rest ht => ?_⟩
    cases depth <;> simp [scan, ht, ho]
  · cases depth with
    | zero =>
      refine Or.inl fun t rest ht => ?_
      rw [scan, ht, if_neg (by simp [ho]), if_pos hc]
    | succ outer =>
      refine Or.inr ⟨outer, fun _ hsemi => ?_, fun t rest ht => ?_⟩
      · rw [hsemi] at hc
        cases hc
      · rw [scan, ht, if_neg (by simp [ho]), if_pos hc]
  · by_cases hstop : tok = .op .semicolon ∧ depth = 0
    · obtain ⟨rfl, rfl⟩ := hstop
      exact Or.inl fun t rest ht => by simp [scan, ht, ho, hc]
    · refine Or.inr ⟨depth, fun hzero hsemi => hstop ⟨hsemi, hzero⟩,
        fun t rest ht => ?_⟩
      cases depth with
      | zero =>
        have hne : tok ≠ .op .semicolon := fun hsemi => hstop ⟨hsemi, rfl⟩
        simp [scan, ht, ho, hc, hne]
      | succ outer => simp [scan, ht, ho, hc]

/-- An initializer that stops before the end stops at the same place when more
tokens follow. -/
theorem scan_mapOffsets (g : Nat → Nat) {tail : List Token} (tokens : List Token) :
    ∀ depth, (scan depth tokens).rest ≠ [] ∨ tail = [] →
      scan depth (tokens.map (Token.mapOffsets g) ++ tail)
        = ⟨(scan depth tokens).taken.map (Token.mapOffsets g),
          (scan depth tokens).rest.map (Token.mapOffsets g) ++ tail,
            (scan depth tokens).depth⟩ := by
  induction tokens with
  | nil =>
    intro depth h
    rw [h.resolve_left fun hne => hne rfl]
    rfl
  | cons t tokens ih =>
    intro depth h
    rw [List.map_cons, List.cons_append]
    rcases scan_step t.tok depth with hstop | ⟨inner, -, hstep⟩
    · rw [hstop t tokens rfl, hstop (t.mapOffsets g) _ rfl]
      rfl
    · rw [hstep t tokens rfl] at h ⊢
      rw [hstep (t.mapOffsets g) _ rfl, ih inner h]
      rfl

/-- An initializer that runs to the end and leaves no bracket open does not end
with a semicolon. -/
theorem scan_ends (tokens : List Token) :
    ∀ depth, (scan depth tokens).rest = [] → (scan depth tokens).depth = 0 →
      ∀ last ∈ tokens.getLast?, last.tok ≠ .op .semicolon := by
  induction tokens with
  | nil => exact fun _ _ _ _ hlast => (by cases hlast)
  | cons t tokens ih =>
    intro depth hrest hdepth last hlast
    rcases scan_step t.tok depth with hstop | ⟨inner, hinner, hstep⟩
    · rw [hstop t tokens rfl] at hrest
      cases hrest
    · rw [hstep t tokens rfl] at hrest hdepth
      cases tokens with
      | nil =>
        cases hlast
        exact hinner hdepth
      | cons u more =>
        rw [List.getLast?_cons_cons] at hlast
        exact ih inner hrest hdepth last hlast

end ExprExtent

namespace Parser

open Grammar

variable {m : Move} {c : Cursor}

/-- A body ends at the same brace in both places. -/
theorem moves_skipBody {s s' : Span} : Moves m id (skipBody s) (skipBody s') := by
  intro c _ c' hc heq
  dsimp only [skipBody, AtCursor.skipBody] at heq ⊢
  cases hend : blockEnd? 0 c.rest with
  | none =>
    rw [hend] at heq
    cases heq
  | some r =>
    obtain ⟨last, rest⟩ := r
    obtain ⟨hlast, hmoved⟩ := blockEnd?_mapOffsets (· + m.shift) m.tail hend
    obtain ⟨run, hrun⟩ := blockEnd?_eq_some hend
    rw [hend] at heq
    cases heq
    refine ⟨hc.skip hrun (Or.inl (by rw [hlast]; decide)), ?_⟩
    rw [show blockEnd? 0 (m.cursor c).rest = _ from hmoved]
    rfl

/-- A body moves with its braces. -/
theorem movesAt_block {tok : Tok} (hpeek : c.peek? 0 = some tok)
    (htok : tok ≠ .op .semicolon) :
    MovesAt m (Span.mapOffsets (· + m.shift)) block block c := by
  refine .here fun s hs => ?_
  refine (movesAt_advance hpeek htok).bind fun _ c => ?_
  exact (moves_skipBody c).bind fun _ c => moves_since hs c

/-- Initializers end at a token that is there in both places, or with the source. -/
theorem moves_skipExpressions {s s' : Span} :
    Moves m id (skipExpressions s) (skipExpressions s') := by
  intro c _ c' hc heq
  dsimp only [skipExpressions, AtCursor.skipExpressions] at heq ⊢
  by_cases hdepth : (ExprExtent.scan 0 c.rest).depth > 0
  · rw [if_pos hdepth] at heq
    cases heq
  rw [if_neg hdepth] at heq
  cases hlast : (ExprExtent.scan 0 c.rest).taken.getLast? with
  | none =>
    rw [hlast] at heq
    cases heq
  | some last =>
    rw [hlast] at heq
    cases heq
    have hdepth : (ExprExtent.scan 0 c.rest).depth = 0 :=
      Nat.eq_zero_of_not_pos hdepth
    obtain ⟨run, hrun⟩ := List.getLast?_eq_some_iff.mp hlast
    have hsplit : c.rest = run ++ last :: (ExprExtent.scan 0 c.rest).rest := by
      conv => lhs; rw [← scan_append c.rest 0, hrun, List.append_assoc]
      rfl
    -- an initializer that runs to the end ends with something else than a semicolon
    have hends : last.tok ≠ .op .semicolon ∨
        (ExprExtent.scan 0 c.rest).rest ≠ [] := by
      by_cases hrest : (ExprExtent.scan 0 c.rest).rest = []
      · refine Or.inl (ExprExtent.scan_ends c.rest 0 hrest hdepth last ?_)
        rw [hsplit, hrest, List.getLast?_concat]
        rfl
      · exact Or.inr hrest
    have htail : (ExprExtent.scan 0 c.rest).rest ≠ [] ∨ m.tail = [] := by
      by_cases hrest : (ExprExtent.scan 0 c.rest).rest = []
      · rw [hrest] at hsplit
        exact Or.inr (hc.tail_eq_nil hsplit
          (hends.resolve_right fun hne => hne hrest))
      · exact Or.inl hrest
    have hmoved : ExprExtent.scan 0 (m.cursor c).rest = _ :=
      ExprExtent.scan_mapOffsets (· + m.shift) c.rest 0 htail
    refine ⟨hc.skip hsplit hends, ?_⟩
    rw [hmoved]
    dsimp only
    rw [hdepth, if_neg (Nat.lt_irrefl 0), List.getLast?_map, hlast]
    rfl

theorem moves_expressions :
    Moves m (Span.mapOffsets (· + m.shift)) expressions expressions := by
  intro c
  refine .here fun s hs => ?_
  exact (moves_skipExpressions c).bind fun _ c => moves_since hs c

/-! ## Specs -/

theorem moves_importName :
    Moves m (Option.map (Ident.mapOffsets (· + m.shift)))
      importName? importName? := by
  intro c
  refine .peek fun r hpeek => ?_
  cases r with
  | none => exact .pure rfl
  | some tok =>
    cases tok with
    | ident name => exact (moves_ident c).bind fun name c => .pure rfl
    | op o =>
      cases o with
      | dot =>
        refine .here fun s hs => ?_
        exact (movesAt_advance hpeek (by decide)).bind fun _ c => .pure rfl
      | _ => exact .pure rfl
    | _ => exact .pure rfl

/-- An import moves with its name and its path. -/
theorem moves_importSpec :
    Moves m (ImportSpec.mapOffsets (· + m.shift)) importSpec importSpec := by
  intro c
  refine (moves_importName c).bind fun name c => ?_
  exact (moves_stringLit c).bind fun path c => .pure rfl

/-- Whether a type follows the names is told by a token that is there
in both places. -/
theorem moves_valueType :
    Moves m (Option.map (TypeExpr.mapOffsets (· + m.shift)))
      valueType? valueType? := by
  intro c
  refine .peek fun r _ => ?_
  cases r with
  | none => exact .pure rfl
  | some tok =>
    dsimp only
    split
    · exact (movesTypes_typeExpr.moves c).bind fun type c => .pure rfl
    · exact .pure rfl

theorem moves_values :
    Moves m (Option.map (Span.mapOffsets (· + m.shift))) values? values? := by
  intro c
  refine (moves_eat (by decide) c).bind fun assigned c => ?_
  cases assigned with
  | true => exact (moves_expressions c).bind fun span c => .pure rfl
  | false => exact .pure rfl

/-- **A value declaration moves**, with its names, its type and its initializers. -/
theorem moves_valueSpec :
    Moves m (ValueSpec.mapOffsets (· + m.shift)) valueSpec valueSpec := by
  intro c
  refine (moves_identList c).bind fun names c => ?_
  refine (moves_valueType c).bind fun type c => ?_
  exact (moves_values c).bind fun values c => .pure rfl

/-- Whether a value is missing does not depend on the place. -/
theorem moves_constSpec (grouped : Bool) :
    Moves m (ValueSpec.mapOffsets (· + m.shift)) (constSpec grouped)
      (constSpec grouped) := by
  intro c
  refine (moves_valueSpec c).bind fun spec c => ?_
  simp only [ValueSpec.mapOffsets, Option.isNone_map]
  split
  · exact movesAt_unexpected
  · exact .pure rfl

theorem moves_varSpec :
    Moves m (ValueSpec.mapOffsets (· + m.shift)) varSpec varSpec := by
  intro c
  refine (moves_valueSpec c).bind fun spec c => ?_
  simp only [ValueSpec.mapOffsets, Option.isNone_map]
  split
  · exact movesAt_unexpected
  · exact .pure rfl

/-- Whether brackets declare type parameters is the same in both places. -/
theorem bracketsDeclareTypes_eq (hc : m.Admits c)
    (hpeek : c.peek? 0 = some (.op .openBracket)) :
    (m.cursor c).bracketsDeclareTypes = c.bracketsDeclareTypes := by
  have hone : (m.cursor c).peek? 1 = c.peek? 1 := hc.peek?_succ hpeek (by decide)
  unfold Cursor.bracketsDeclareTypes
  rw [hone]
  cases hname : c.peek? 1 with
  | none => rfl
  | some tok =>
    cases tok with
    | ident name =>
      have htwo : (m.cursor c).peek? 2 = c.peek? 2 := hc.peek?_succ hname nofun
      rw [htwo]
      cases hnext : c.peek? 2 with
      | none => rfl
      | some next =>
        cases next with
        | op o =>
          cases o with
          | openBracket =>
            have hthree : (m.cursor c).peek? 3 = c.peek? 3 :=
              hc.peek?_succ hnext (by decide)
            rw [hthree]
          | _ => rfl
        | keyword word => cases word <;> rfl
        | _ => rfl
    | _ => rfl

/-- Type parameters are told from a length by tokens that move. -/
theorem moves_specTypeParameters :
    Moves m (List.map (Field.mapOffsets (· + m.shift)))
      specTypeParameters specTypeParameters := by
  intro c
  refine .ask (g := id) (fun hc _ => ?_) ?_
  · unfold Cursor.atTypeParameters
    rw [hc.peek?_zero]
    by_cases hpeek : c.peek? 0 = some (.op .openBracket)
    · rw [bracketsDeclareTypes_eq hc hpeek]
      rfl
    · rw [beq_eq_false_iff_ne.mpr hpeek]
      rfl
  · cases hlook : c.atTypeParameters with
    | true =>
      have hpeek := eq_of_beq (Bool.and_eq_true_iff.mp hlook).1
      exact movesAt_typeParameters movesTypes_typeExpr hpeek
    | false => exact .pure rfl

/-- A type declaration moves, with its type parameters and its type. -/
theorem moves_typeSpec :
    Moves m (TypeSpec.mapOffsets (· + m.shift)) typeSpec typeSpec := by
  intro c
  refine (moves_ident c).bind fun name c => ?_
  refine (moves_specTypeParameters c).bind fun typeParams c => ?_
  refine (moves_eat (by decide) c).bind fun isAlias c => ?_
  exact (movesTypes_typeExpr.moves c).bind fun type c => .pure rfl

/-! ## Groups and functions -/

section Groups

variable {σ : Type} {g : σ → σ} {spelled : σ → List Token → Prop}

theorem moves_groupedSpec {spec : Parser σ} (hspec : Moves m g spec spec) :
    Moves m g (groupedSpec spec) (groupedSpec spec) := by
  intro c
  refine .peek fun r _ => ?_
  cases r with
  | none => exact movesAt_unexpected
  | some tok => exact hspec c

/-- A group moves from its keyword on. -/
theorem movesAt_group {spec : Bool → Parser σ} {word : Keyword}
    (hspec : ∀ b, Moves m g (spec b) (spec b))
    (htakes : ∀ b, Takes .anywhere (spec b) spelled)
    (hpeek : c.peek? 0 = some (.keyword word)) :
    MovesAt m (Group.mapOffsets (· + m.shift) g) (group spec) (group spec) c := by
  refine .here fun s hs => ?_
  refine (movesAt_advance hpeek nofun).bind fun _ c => ?_
  refine (moves_eat (by decide) c).bind fun grouped c => ?_
  cases grouped with
  | true =>
    refine (moves_memberList (by decide) (moves_groupedSpec (hspec true))
      (takes_groupedSpec (htakes true)) c).bind fun specs c => ?_
    exact (moves_since hs c).bind fun span c => .pure rfl
  | false =>
    refine (hspec false c).bind fun only c => ?_
    exact (moves_since hs c).bind fun span c => .pure rfl

end Groups

/-- Whether there is a receiver is told by the next token. -/
theorem moves_receiver :
    Moves m (Option.map (Field.mapOffsets (· + m.shift))) receiver? receiver? := by
  intro c
  refine .isNext fun b _ => ?_
  cases b with
  | false => exact .pure rfl
  | true =>
    have hreceiver : MovesAt m (Field.mapOffsets (· + m.shift))
        receiver receiver c := by
      refine .here fun s hs => ?_
      refine (moves_parameters movesTypes_typeExpr c).bind fun params c => ?_
      obtain _ | ⟨only, _ | ⟨second, more⟩⟩ := params
      · exact movesAt_of_error rfl
      · exact .pure rfl
      · exact movesAt_of_error rfl
    exact hreceiver.bind fun field c => .pure rfl

theorem moves_funcTypeParameters :
    Moves m (List.map (Field.mapOffsets (· + m.shift)))
      funcTypeParameters funcTypeParameters := by
  intro c
  refine .isNext fun b hnext => ?_
  cases b with
  | true => exact movesAt_typeParameters movesTypes_typeExpr (eq_of_beq hnext)
  | false => exact .pure rfl

/-- A function with a body keeps it. -/
theorem moves_body :
    Moves m (Option.map (Span.mapOffsets (· + m.shift))) body? body? := by
  intro c
  refine .isNext fun b hnext => ?_
  cases b with
  | true =>
    exact (movesAt_block (eq_of_beq hnext) (by decide)).bind fun span c => .pure rfl
  | false => exact .pure rfl

/-- **A function moves from its keyword on.** -/
theorem movesAt_funcDecl (hpeek : c.peek? 0 = some (.keyword .func)) :
    MovesAt m (FuncDecl.mapOffsets (· + m.shift)) funcDecl funcDecl c := by
  refine .here fun s hs => ?_
  refine (movesAt_advance hpeek (by decide)).bind fun _ c => ?_
  refine (moves_receiver c).bind fun receiver c => ?_
  refine (moves_ident c).bind fun name c => ?_
  refine (moves_funcTypeParameters c).bind fun typeParams c => ?_
  refine (moves_signature movesTypes_typeExpr c).bind fun sig c => ?_
  refine (moves_body c).bind fun body c => ?_
  exact (moves_since hs c).bind fun span c => .pure rfl

/-- **Declarations can be read in another place**, with other tokens behind them. -/
theorem moves_decl : Moves m (Decl.mapOffsets (· + m.shift)) decl decl := by
  intro c
  refine .peek fun r hpeek => ?_
  cases r with
  | none => exact movesAt_unexpected
  | some tok =>
    cases tok with
    | keyword word =>
      cases word with
      | «import» =>
        exact (movesAt_group (fun _ => moves_importSpec)
          (fun _ => takes_importSpec) hpeek).bind
          fun group c => .pure rfl
      | const =>
        exact (movesAt_group moves_constSpec takes_constSpec hpeek).bind
          fun group c => .pure rfl
      | var =>
        exact (movesAt_group (fun _ => moves_varSpec)
          (fun _ => takes_varSpec) hpeek).bind
          fun group c => .pure rfl
      | type =>
        exact (movesAt_group (fun _ => moves_typeSpec)
          (fun _ => takes_typeSpec) hpeek).bind
          fun group c => .pure rfl
      | func => exact (movesAt_funcDecl hpeek).bind fun func c => .pure rfl
      | _ => exact movesAt_unexpected
    | _ => exact movesAt_unexpected

end Parser

end GoInventory
