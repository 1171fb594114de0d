import GoInventory.Proofs.Syntax.Takes
import GoInventory.Proofs.Tape.Basic

/-!
# Readers that follow parsers

Readers of a tape do not crash, and they come to an end. `Follows k d m p` says
that on a tape with at most `k` tokens left the reader `m` ends as the parser
`p` does, and takes at least `d` tokens if it succeeds. The number of tokens
left is what the loops and the recursion descend on: each item of a loop takes a
token, and so does each form of a type before it asks for the types inside.
-/

namespace GoInventory

namespace Tape

/-- The cursor at the position. -/
def cursor (t : Tape) : Cursor :=
  ⟨t.tokens.toList.drop t.pos, t.lastStop, t.sourceLength⟩

section Cursors

variable {t : Tape} {u : Token}

/-- No token at the position: none is ahead. -/
theorem cursor_nil (h : t.tokens[t.pos]? = none) : t.cursor.rest = [] := by
  refine List.drop_eq_nil_of_le ?_
  rw [Array.length_toList]
  exact Array.getElem?_eq_none_iff.mp h

/-- The token at the position is the first one ahead. -/
theorem cursor_cons (h : t.tokens[t.pos]? = some u) :
    t.cursor.rest = u :: (t.after u).cursor.rest := by
  obtain ⟨hlt, hu⟩ := Array.getElem?_eq_some_iff.mp h
  show t.tokens.toList.drop t.pos = u :: t.tokens.toList.drop (t.pos + 1)
  rw [List.drop_eq_getElem_cons (by rwa [Array.length_toList]),
    Array.getElem_toList, hu]

/-- As many tokens are ahead of the cursor as are left on the tape. -/
theorem length_cursor (t : Tape) : t.cursor.rest.length = t.left := by
  simp [cursor, left]

/-- Both look at the same token ahead. -/
theorem cursor_peek? (t : Tape) (n : Nat) : t.cursor.peek? n = t.peek? n := by
  simp [Cursor.peek?, peek?, cursor]

theorem cursor_here (t : Tape) : t.cursor.here = t.here := by
  unfold Cursor.here here
  cases h : t.tokens[t.pos]? with
  | none => rw [cursor_nil h]; rfl
  | some u => rw [cursor_cons h]

/-- In a message, both find the same. -/
theorem cursor_found (t : Tape) : t.cursor.found = t.found := by
  unfold Cursor.found found
  cases h : t.tokens[t.pos]? with
  | none => rw [cursor_nil h]
  | some u => rw [cursor_cons h]

theorem InRange.after (h : t.tokens[t.pos]? = some u) : (t.after u).InRange :=
  (Array.getElem?_eq_some_iff.mp h).1

/-- One token less is left behind a token. -/
theorem left_after (h : t.tokens[t.pos]? = some u) :
    t.left = (t.after u).left + 1 := by
  have hsize : t.pos + 1 ≤ t.tokens.size := InRange.after h
  unfold left after
  dsimp only
  omega

/-- The tape behind a run of tokens. -/
def forward (t : Tape) (run : List Token) : Tape :=
  { t with
    pos := t.pos + run.length
    lastStop := (run.getLast?.map (·.stop)).getD t.lastStop }

/-- A run is passed over token by token. -/
theorem forward_cons (t : Tape) (u : Token) (run : List Token) :
    t.forward (u :: run) = (t.after u).forward run := by
  have hpos : t.pos + (run.length + 1) = t.pos + 1 + run.length := by omega
  unfold forward after
  rw [List.getLast?_cons, List.length_cons, hpos]
  cases run.getLast? <;> rfl

/-- Behind a run that is ahead, the cursor has what follows the run. -/
theorem cursor_forward {run rest : List Token} (h : t.cursor.rest = run ++ rest) :
    (t.forward run).cursor
      = ⟨rest, (run.getLast?.map (·.stop)).getD t.lastStop, t.sourceLength⟩ := by
  have hdrop : t.tokens.toList.drop (t.pos + run.length) = rest := by
    rw [← List.drop_drop]
    show t.cursor.rest.drop run.length = rest
    rw [h, List.drop_left]
  unfold cursor forward
  rw [hdrop]

/-- The run that is ahead fits on the tape. -/
theorem size_of_cursor {run rest : List Token} (h : t.cursor.rest = run ++ rest)
    (hin : t.InRange) : t.pos + run.length ≤ t.tokens.size := by
  have hlength := t.length_cursor
  rw [h, List.length_append] at hlength
  unfold left at hlength
  unfold InRange at hin
  omega

/-- The first token ahead stands at the position. -/
theorem get_of_cursor {rest : List Token} (h : t.cursor.rest = u :: rest) :
    t.tokens[t.pos]? = some u := by
  have hget : t.cursor.rest[0]? = some u := by rw [h]; rfl
  rwa [cursor, List.getElem?_drop, Array.getElem?_toList] at hget

theorem get_of_cursor_nil (h : t.cursor.rest = []) : t.tokens[t.pos]? = none := by
  cases hu : t.tokens[t.pos]? with
  | none => rfl
  | some u =>
    rw [cursor_cons hu] at h
    cases h

/-- What is ahead behind a token. -/
theorem cursor_after {rest : List Token} (h : t.cursor.rest = u :: rest) :
    (t.after u).cursor.rest = rest := by
  rw [cursor_cons (get_of_cursor h)] at h
  exact (List.cons.inj h).2

end Cursors

end Tape

namespace TapeReader

open TokenReader
open OnTape (ask bump)

variable {α β : Type}

/-! ## Running -/

section Running

variable {m : TapeReader α} {f : α → TapeReader β} {rounds : Nat} {t t' : Tape}

/-- If the first reader gives a value, the second goes on from there. -/
theorem bind_ok {a : α} (h : m rounds t = .ok (a, t')) :
    (m >>= f) rounds t = f a rounds t' := by
  show (m rounds t >>= _) = _
  rw [h]
  rfl

/-- If the first reader stops, so do both. -/
theorem bind_error {halt : Halt} (h : m rounds t = .error halt) :
    (m >>= f) rounds t = .error halt := by
  show (m rounds t >>= _) = _
  rw [h]
  rfl

end Running

/-- A reader on a tape and a parser at its cursor end alike: with the same value
at the same place, at least `d` tokens further, or with the same error. -/
inductive Ends (t : Tape) (d : Nat) :
    Except Halt (α × Tape) → Except SyntaxError (α × Cursor) → Prop
  | ok {a : α} {t' : Tape} : t'.tokens = t.tokens → t.pos + d ≤ t'.pos → t'.InRange →
    Ends t d (.ok (a, t')) (.ok (a, t'.cursor))
  | error {e : SyntaxError} : Ends t d (.error (.rejected e)) (.error e)

/-- What ends alike one token further ends alike here. -/
theorem Ends.of_after {t : Tape} {u : Token} {d : Nat} {r : Except Halt (α × Tape)}
    {r' : Except SyntaxError (α × Cursor)} (h : Ends (t.after u) d r r') :
    Ends t d r r' := by
  cases h with
  | error => exact .error
  | ok htokens hpos hin =>
    refine .ok htokens ?_ hin
    unfold Tape.after at hpos
    dsimp only at hpos
    omega

/-- On this tape and with more rounds than tokens left, the reader ends as the
parser does and takes at least `d` tokens. -/
def FollowsAt (rounds : Nat) (t : Tape) (d : Nat) (m : TapeReader α) (p : Parser α) :
    Prop :=
  t.left < rounds → t.InRange → Ends t d (m rounds t) (p t.cursor)

/-- With at most `k` tokens left, and more rounds than that, the reader ends as
the parser does and takes at least `d` tokens. -/
def Follows (k d : Nat) (m : TapeReader α) (p : Parser α) : Prop :=
  ∀ (rounds : Nat) (t : Tape), t.left ≤ k → FollowsAt rounds t d m p

section Combining

variable {k d n rounds : Nat} {t : Tape} {m : TapeReader α} {p : Parser α}
  {f : α → TapeReader β} {g : α → Parser β}

/-- The second reader goes on from a tape that the first one has left, `d`
positions further. -/
theorem FollowsAt.bind (hm : FollowsAt rounds t d m p)
    (hf : ∀ a t', m rounds t = .ok (a, t') → t'.tokens = t.tokens →
      t.pos + d ≤ t'.pos →
      FollowsAt rounds t' (n - d) (f a) (g a)) :
    FollowsAt rounds t n (m >>= f) (p >>= g) := by
  intro hrounds hin
  have hend := hm hrounds hin
  rw [Parser.bind_apply]
  generalize hread : m rounds t = r, p t.cursor = r' at hend
  cases hend with
  | error => rw [bind_error hread]; exact .error
  | @ok a t' htokens hpos hin' =>
    rw [bind_ok hread]
    have hleft : t'.left ≤ t.left := by
      unfold Tape.left
      rw [htokens]
      omega
    have hend := hf a t' hread htokens hpos (Nat.lt_of_le_of_lt hleft hrounds) hin'
    dsimp only
    generalize f a rounds t' = r, g a t'.cursor = r' at hend
    cases hend with
    | error => exact .error
    | ok htokens' hpos' hin'' => exact .ok (htokens'.trans htokens) (by omega) hin''

/-- After a reader that may take nothing. -/
theorem FollowsAt.bind_follows (hm : FollowsAt rounds t 0 m p) (hk : t.left ≤ k)
    (hf : ∀ a, Follows k n (f a) (g a)) :
    FollowsAt rounds t n (m >>= f) (p >>= g) := by
  refine hm.bind fun a t' _ htokens hpos => hf a rounds t' ?_
  unfold Tape.left at hk ⊢
  rw [htokens]
  omega

/-- A reader that may take nothing leaves as many tokens to the next one. -/
theorem Follows.bind (hm : Follows k 0 m p) (hf : ∀ a, Follows k n (f a) (g a)) :
    Follows k n (m >>= f) (p >>= g) :=
  fun rounds t hk => (hm rounds t hk).bind_follows hk hf

/-- After a reader that takes a token, at least one token less is left. -/
theorem Follows.bind_taken (hm : Follows k 1 m p)
    (hf : ∀ j a, k = j + 1 → Follows j 0 (f a) (g a)) :
    Follows k 1 (m >>= f) (p >>= g) := by
  intro rounds t hk
  refine (hm rounds t hk).bind fun a t' _ htokens hpos hrounds hin => ?_
  unfold Tape.InRange at hin
  unfold Tape.left at hk
  rw [htokens] at hin
  refine hf (k - 1) a (by omega) rounds t' ?_ hrounds ?_
  · unfold Tape.left
    rw [htokens]
    omega
  · rwa [Tape.InRange, htokens]

/-- With fewer tokens left, or fewer to be taken, a reader still follows. -/
theorem Follows.mono {k' d' : Nat} (h : Follows k d m p) (hk : k' ≤ k) (hd : d' ≤ d) :
    Follows k' d' m p := by
  intro rounds t ht hrounds hin
  have hend := h rounds t (Nat.le_trans ht hk) hrounds hin
  generalize m rounds t = r, p t.cursor = r' at hend
  cases hend with
  | error => exact .error
  | ok htokens hpos hin' => exact .ok htokens (by omega) hin'

/-- The same, if it does not matter that a token is taken. -/
theorem Follows.any (h : Follows k d m p) : Follows k 0 m p :=
  h.mono (Nat.le_refl k) (Nat.zero_le d)

/-- A reader that takes a token does so with anything that follows behind it. -/
theorem Follows.bind_then (hm : Follows k 1 m p) (hf : ∀ a, Follows k 0 (f a) (g a)) :
    Follows k 1 (m >>= f) (p >>= g) :=
  hm.bind_taken fun _ a hj => (hf a).mono (by omega) (Nat.le_refl 0)

theorem follows_pure (a : α) : Follows k 0 (pure a) (pure a) :=
  fun _ _ _ _ hin => .ok rfl (Nat.le_refl _) hin

/-- Both take the same branch. -/
theorem Follows.ite {b : Prop} [Decidable b] {m' : TapeReader α} {p' : Parser α}
    (hm : b → Follows k d m p) (hm' : ¬ b → Follows k d m' p') :
    Follows k d (if b then m else m') (if b then p else p') := by
  split
  next hb => exact hm hb
  next hb => exact hm' hb

/-- An error is the same for both, at whatever position. -/
theorem follows_fail (span : Span) (fault : SyntaxFault) :
    Follows k d (fail span fault : TapeReader α) (fail span fault) :=
  fun _ _ _ _ _ => .error

/-- What was found instead is named alike, with the same span. -/
theorem follows_unexpected (expected : Expected) :
    Follows k d (unexpected expected : TapeReader α) (unexpected expected) := by
  intro _ t _ _ _
  show Ends t d (.error (.rejected ⟨t.here, .mismatch expected t.found⟩))
    (.error (t.cursor.mismatch expected))
  rw [Cursor.mismatch, t.cursor_here, t.cursor_found]
  exact .error

/-- A result that does not depend on the tokens is the same for both. -/
theorem follows_ofExcept (r : Except SyntaxError α) :
    Follows k 0 (ofExcept r) (ofExcept r) := by
  cases r with
  | ok a => exact follows_pure a
  | error e => exact follows_fail e.span e.fault

/-- A look at the tokens takes none of them. -/
theorem follows_ask {look : Tape → α} {look' : Cursor → α}
    (hlook : ∀ t, look' t.cursor = look t) :
    Follows k 0 (ask look) (Parser.ask look') := by
  intro _ t _ _ hin
  show Ends t 0 (.ok (look t, t)) (.ok (look' t.cursor, t.cursor))
  rw [hlook]
  exact .ok rfl (Nat.le_refl _) hin

/-- Before a reader that is chosen by what is seen on the tape. -/
theorem followsAt_ask {look : Tape → α} {look' : Cursor → α}
    (hlook : look' t.cursor = look t)
    (hf : FollowsAt rounds t n (f (look t)) (g (look t))) :
    FollowsAt rounds t n (ask look >>= f) (Parser.ask look' >>= g) := by
  intro hrounds hin
  show Ends t n (f (look t) rounds t) (g (look' t.cursor) t.cursor)
  rw [hlook]
  exact hf hrounds hin

end Combining

/-! ## Single tokens -/

section Tokens

variable {k n rounds : Nat} {t : Tape} {f : Bool → TapeReader β} {g : Bool → Parser β}

/-- Looking ahead is safe: behind the last token there is nothing to see. -/
theorem follows_peek? (i : Nat) : Follows k 0 (peek? i) (peek? i) :=
  follows_ask fun t => t.cursor_peek? i

theorem follows_here : Follows k 0 here here :=
  follows_ask fun t => t.cursor_here

/-- The end of the last token is remembered by both. -/
theorem follows_since (first : Span) : Follows k 0 (since first) (since first) :=
  follows_ask fun _ => rfl

/-- A construct that ends here, with its span. -/
theorem follows_spanned (first : Span) (make : Span → α) :
    Follows k 0 (since first >>= fun span => pure (make span))
      (since first >>= fun span => pure (make span)) :=
  (follows_since first).bind fun _ => follows_pure _

theorem follows_isNext (tok : Tok) : Follows k 0 (isNext tok) (isNext tok) :=
  (follows_peek? 0).bind fun _ => follows_pure _

/-- At a token, the position may go one further without passing the end. -/
theorem bump_of_some {u : Token} (h : t.tokens[t.pos]? = some u) :
    bump rounds t = .ok (some u, t.after u) := by
  unfold bump
  rw [h]
  exact if_pos (Tape.InRange.after h)

/-- Behind the last token the position stays. -/
theorem bump_of_none (h : t.tokens[t.pos]? = none) :
    bump rounds t = .ok (none, t) := by
  unfold bump
  rw [h]

theorem peek?_of_some {u : Token} (h : t.tokens[t.pos]? = some u) :
    OnTape.peek? 0 rounds t = .ok (some u.tok, t) := by
  show Except.ok ((t.tokens[t.pos]?).map (·.tok), t) = _
  rw [h]
  rfl

theorem peek?_of_none (h : t.tokens[t.pos]? = none) :
    OnTape.peek? 0 rounds t = .ok (none, t) := by
  show Except.ok ((t.tokens[t.pos]?).map (·.tok), t) = _
  rw [h]
  rfl

theorem here_of_some {u : Token} (h : t.tokens[t.pos]? = some u) :
    OnTape.here rounds t = .ok (u.span, t) := by
  show Except.ok (t.here, t) = _
  unfold Tape.here
  rw [h]

/-- A token that is there is passed over, as the parser passes over it. -/
theorem advance_of_some {u : Token} (h : t.tokens[t.pos]? = some u) :
    OnTape.advance rounds t = .ok ((), t.after u) :=
  bind_ok (bump_of_some h)

theorem advance_cursor_of_some {u : Token} (h : t.tokens[t.pos]? = some u) :
    AtCursor.advance t.cursor = .ok ((), (t.after u).cursor) := by
  unfold AtCursor.advance
  rw [Tape.cursor_cons h]
  rfl

/-- At the end both stay where they are. -/
theorem advance_of_none (h : t.tokens[t.pos]? = none) :
    OnTape.advance rounds t = .ok ((), t) :=
  bind_ok (bump_of_none h)

theorem advance_cursor_of_none (h : t.tokens[t.pos]? = none) :
    AtCursor.advance t.cursor = .ok ((), t.cursor) := by
  unfold AtCursor.advance
  rw [Tape.cursor_nil h]

/-- A token that is there is taken. -/
theorem followsAt_advance {u : Token} (h : t.tokens[t.pos]? = some u) :
    FollowsAt rounds t 1 advance advance := by
  intro _ _
  show Ends t 1 (OnTape.advance rounds t) (AtCursor.advance t.cursor)
  rw [advance_of_some h, advance_cursor_of_some h]
  exact .ok rfl (Nat.le_refl _) (.after h)

/-- Passing over a token that may be missing takes nothing for sure. -/
theorem follows_advance : Follows k 0 advance advance := by
  intro rounds t _ _ hin
  show Ends t 0 (OnTape.advance rounds t) (AtCursor.advance t.cursor)
  cases h : t.tokens[t.pos]? with
  | none =>
    rw [advance_of_none h, advance_cursor_of_none h]
    exact .ok rfl (Nat.le_refl _) hin
  | some u =>
    rw [advance_of_some h, advance_cursor_of_some h]
    exact .ok rfl (Nat.le_succ _) (.after h)

/-- Either the token is next and both pass over it, or neither moves. -/
theorem eat_cases (tok : Tok) (rounds : Nat) (t : Tape) :
    (∃ u, t.tokens[t.pos]? = some u ∧ u.tok = tok ∧
      OnTape.eat tok rounds t = .ok (true, t.after u) ∧
      AtCursor.eat tok t.cursor = .ok (true, (t.after u).cursor)) ∨
    (OnTape.eat tok rounds t = .ok (false, t) ∧
      AtCursor.eat tok t.cursor = .ok (false, t.cursor)) := by
  have heat : OnTape.eat tok rounds t
    = (if t.peek? 0 == some tok then OnTape.advance >>= fun _ => pure true
      else pure false : TapeReader Bool) rounds t := rfl
  rw [heat]
  unfold AtCursor.eat Tape.peek?
  cases h : t.tokens[t.pos]? with
  | none =>
    rw [Tape.cursor_nil h]
    exact Or.inr ⟨rfl, rfl⟩
  | some u =>
    rw [Tape.cursor_cons h, Option.map_some]
    by_cases htok : u.tok = tok
    · refine Or.inl ⟨u, rfl, htok, ?_, if_pos htok⟩
      rw [if_pos (by rw [← htok]; exact beq_self_eq_true _),
        bind_ok (advance_of_some h)]
      rfl
    · refine Or.inr ⟨?_, if_neg htok⟩
      rw [if_neg fun heq => htok (Option.some.inj (eq_of_beq heq))]
      rfl

/-- What comes next depends on whether the token was taken. -/
theorem followsAt_eat {tok : Tok}
    (htrue : ∀ u, t.tokens[t.pos]? = some u → u.tok = tok →
      FollowsAt rounds (t.after u) (n - 1) (f true) (g true))
    (hfalse : FollowsAt rounds t n (f false) (g false)) :
    FollowsAt rounds t n (eat tok >>= f) (eat tok >>= g) := by
  rcases eat_cases tok rounds t with ⟨u, hu, htok, heat, heat'⟩ | ⟨heat, heat'⟩
  · have htaken : FollowsAt rounds t 1 (OnTape.eat tok) (AtCursor.eat tok) := by
      intro _ _
      rw [heat, heat']
      exact .ok rfl (Nat.le_refl _) (.after hu)
    refine htaken.bind fun b t' hread _ _ => ?_
    rw [heat] at hread
    cases hread
    exact htrue u hu htok
  · intro hrounds hin
    show Ends t n ((OnTape.eat tok >>= f) rounds t)
      ((AtCursor.eat tok >>= g : Parser β) t.cursor)
    rw [bind_ok heat, Parser.bind_ok heat']
    exact hfalse hrounds hin

/-- If the token is taken, one token less is left. -/
theorem follows_eat {tok : Tok}
    (htrue : ∀ j, k = j + 1 → Follows j (n - 1) (f true) (g true))
    (hfalse : Follows k n (f false) (g false)) :
    Follows k n (eat tok >>= f) (eat tok >>= g) := by
  intro rounds t hk
  refine followsAt_eat (fun u hu _ => ?_) (hfalse rounds t hk)
  rw [Tape.left_after hu] at hk
  exact htrue (k - 1) (by omega) rounds _ (by omega)

/-- Whether a token was taken is a value like any other. -/
theorem follows_eaten (tok : Tok) : Follows k 0 (eat tok) (eat tok) := by
  intro rounds t _ _ hin
  show Ends t 0 (OnTape.eat tok rounds t) (AtCursor.eat tok t.cursor)
  rcases eat_cases tok rounds t with ⟨u, hu, -, heat, heat'⟩ | ⟨heat, heat'⟩
  · rw [heat, heat']
    exact .ok rfl (Nat.le_succ _) (.after hu)
  · rw [heat, heat']
    exact .ok rfl (Nat.le_refl _) hin

/-- A token that the grammar demands is taken, or there is an error. -/
theorem follows_expect (tok : Tok) (expected : Expected) :
    Follows k 1 (expect tok expected) (expect tok expected) :=
  follows_eat (fun _ _ => follows_pure ()) (follows_unexpected expected)

/-- After the token that announces a construct, at least one token less is left. -/
theorem followsAt_opened {u : Token} {f : Span → TapeReader α} {g : Span → Parser α}
    (h : t.tokens[t.pos]? = some u) (hk : t.left ≤ k + 1)
    (hf : ∀ start, Follows k 0 (f start) (g start)) :
    FollowsAt rounds t 1 (here >>= fun start => advance >>= fun _ => f start)
      (here >>= fun start => advance >>= fun _ => g start) := by
  refine followsAt_ask t.cursor_here ?_
  refine (followsAt_advance h).bind fun _ t' hread _ _ => hf _ rounds t' ?_
  cases (advance_of_some h).symm.trans hread
  rw [Tape.left_after h] at hk
  omega

/-- A token that is taken as a whole. -/
theorem ends_taken {u : Token} (h : t.tokens[t.pos]? = some u) (a : α) :
    Ends t 1 ((OnTape.advance >>= fun _ => pure a : TapeReader α) rounds t)
      (.ok (a, (t.after u).cursor)) := by
  rw [bind_ok (advance_of_some h)]
  exact .ok rfl (Nat.le_refl _) (.after h)

/-- A name takes one token. -/
theorem follows_ident : Follows k 1 ident ident := by
  intro rounds t hk hrounds hin
  show Ends t 1 (OnTape.ident rounds t) (AtCursor.ident t.cursor)
  unfold OnTape.ident AtCursor.ident
  cases h : t.tokens[t.pos]? with
  | none =>
    rw [bind_ok rfl, bind_ok (peek?_of_none h), Tape.cursor_nil h]
    exact follows_unexpected _ rounds t hk hrounds hin
  | some u =>
    rw [bind_ok (here_of_some h), bind_ok (peek?_of_some h), Tape.cursor_cons h]
    obtain ⟨start, tok, stop⟩ := u
    cases tok with
    | ident name => exact ends_taken h _
    | _ => exact follows_unexpected _ rounds t hk hrounds hin

/-- A string literal takes one token. -/
theorem follows_stringLit : Follows k 1 stringLit stringLit := by
  intro rounds t hk hrounds hin
  show Ends t 1 (OnTape.stringLit rounds t) (AtCursor.stringLit t.cursor)
  unfold OnTape.stringLit AtCursor.stringLit
  cases h : t.tokens[t.pos]? with
  | none =>
    rw [bind_ok rfl, bind_ok (peek?_of_none h), Tape.cursor_nil h]
    exact follows_unexpected _ rounds t hk hrounds hin
  | some u =>
    rw [bind_ok (here_of_some h), bind_ok (peek?_of_some h), Tape.cursor_cons h]
    obtain ⟨start, tok, stop⟩ := u
    cases tok with
    | literal kind text =>
      cases kind with
      | string | rawString => exact ends_taken h _
      | _ => exact follows_unexpected _ rounds t hk hrounds hin
    | _ => exact follows_unexpected _ rounds t hk hrounds hin

/-- The end of the source takes no token, and a semicolon takes one. -/
theorem follows_terminator (expected : Expected) :
    Follows k 0 (terminator expected) (terminator expected) := by
  intro rounds t hk hrounds hin
  show Ends t 0 (OnTape.terminator expected rounds t)
    (AtCursor.terminator expected t.cursor)
  unfold OnTape.terminator AtCursor.terminator
  cases h : t.tokens[t.pos]? with
  | none =>
    rw [bind_ok (peek?_of_none h), Tape.cursor_nil h]
    exact .ok rfl (Nat.le_refl _) hin
  | some u =>
    rw [bind_ok (peek?_of_some h), Tape.cursor_cons h]
    dsimp only
    by_cases htok : u.tok = .op .semicolon
    · rw [if_pos htok, if_pos htok, advance_of_some h]
      exact .ok rfl (Nat.le_succ _) (.after h)
    · rw [if_neg htok, if_neg htok]
      exact follows_unexpected expected rounds t hk hrounds hin

/-- A run that is taken as a whole. -/
theorem ends_forward {d : Nat} {run rest : List Token} {t : Tape} (a : α)
    (h : t.cursor.rest = run ++ rest) (hin : t.InRange) (hd : d ≤ run.length) :
    Ends t d (.ok (a, t.forward run))
      (.ok (a, ⟨rest, (run.getLast?.map (·.stop)).getD t.lastStop,
        t.sourceLength⟩)) := by
  rw [← Tape.cursor_forward h]
  exact .ok rfl (Nat.add_le_add_left hd _) (Tape.size_of_cursor h hin)

end Tokens

/-! ## Loops -/

section Loops

variable {k : Nat} {item : TapeReader α} {item' : Parser α}

/-- A loop needs more rounds than there are tokens left, as the parser
needs more steps. -/
theorem follows_bounded {d : Nat} {m : Nat → TapeReader α} {p : Nat → Parser α}
    (h : ∀ n bound j, j < n → j < bound → j ≤ k → Follows j d (m n) (p bound)) :
    Follows k d (bounded m) (bounded p) := by
  intro rounds t hk hrounds hin
  show Ends t d (m rounds rounds t) (p (t.cursor.rest.length + 1) t.cursor)
  rw [t.length_cursor]
  exact h _ _ _ hrounds (Nat.lt_succ_self _) hk rounds t (Nat.le_refl _) hrounds hin

/-- Each turn that is not the last one takes an item and a comma. -/
theorem follows_commaList {close : Operator} {itemEnd : Expected}
    (hitem : Follows k 1 item item') :
    Follows k 1 (commaList close itemEnd item) (commaList close itemEnd item') := by
  refine follows_bounded fun n => ?_
  induction n with
  | zero => intro bound j hj; omega
  | succ n ih =>
    intro bound j hj hbound hk
    obtain ⟨bound, rfl⟩ := Nat.exists_eq_add_of_le' (Nat.zero_lt_of_lt hbound)
    refine follows_eat (fun _ _ => follows_pure []) ?_
    refine (hitem.mono hk (Nat.le_refl 1)).bind_taken fun j₁ first hj₁ => ?_
    refine follows_eat (fun j₂ hj₂ => ?_) ?_
    · exact (ih bound j₂ (by omega) (by omega) (by omega)).any.bind
        fun others => follows_pure _
    · exact (follows_expect _ _).any.bind fun _ => follows_pure _

/-- The end of a member may leave the closing token where it is. -/
theorem follows_memberEnd (close : Operator) (expected : Expected) :
    Follows k 0 (memberEnd close expected) (memberEnd close expected) := by
  refine follows_eat (fun _ _ => follows_pure ()) ?_
  refine (follows_isNext _).bind fun closes => ?_
  exact .ite (fun _ => follows_pure ()) fun _ => follows_unexpected expected

/-- Each turn that is not the last one takes an item. -/
theorem follows_memberList {close : Operator} {itemEnd : Expected}
    (hitem : Follows k 1 item item') :
    Follows k 1 (memberList close itemEnd item) (memberList close itemEnd item') := by
  refine follows_bounded fun n => ?_
  induction n with
  | zero => intro bound j hj; omega
  | succ n ih =>
    intro bound j hj hbound hk
    obtain ⟨bound, rfl⟩ := Nat.exists_eq_add_of_le' (Nat.zero_lt_of_lt hbound)
    refine follows_eat (fun _ _ => follows_pure []) ?_
    refine (hitem.mono hk (Nat.le_refl 1)).bind_taken fun j₁ first hj₁ => ?_
    refine (follows_memberEnd _ _).bind fun _ => ?_
    exact (ih bound j₁ (by omega) (by omega) (by omega)).any.bind
      fun others => follows_pure _

/-- Each turn takes an item. Unlike the other lists, this one does not
look for its end. -/
theorem follows_separatedList {separator : Operator} (hitem : Follows k 1 item item') :
    Follows k 1 (separatedList separator item) (separatedList separator item') := by
  refine follows_bounded fun n => ?_
  induction n with
  | zero => intro bound j hj; omega
  | succ n ih =>
    intro bound j hj hbound hk
    obtain ⟨bound, rfl⟩ := Nat.exists_eq_add_of_le' (Nat.zero_lt_of_lt hbound)
    refine Follows.bind_taken (hitem.mono hk (Nat.le_refl 1)) fun j₁ first hj₁ => ?_
    refine follows_eat (fun j₂ hj₂ => ?_) (follows_pure _)
    exact (ih bound j₂ (by omega) (by omega) (by omega)).any.bind
      fun others => follows_pure _

/-- A list of names takes at least one token. -/
theorem follows_identList : Follows k 1 identList identList :=
  follows_separatedList follows_ident

end Loops

end TapeReader

end GoInventory
