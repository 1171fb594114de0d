import GoInventory.Proofs.Syntax.Offsets
import GoInventory.Proofs.Syntax.Takes
import GoInventory.Proofs.Token.LineBreak

/-!
# Reading the same tokens in another place

A part of a file can be read in another file: its tokens stand at other
offsets there, and further tokens may follow (`Move`). A parser moves if,
whenever it succeeds in the first place, it succeeds in the second one and
gives the same value with its offsets moved (`Moves`). Parsers that move are
put together with `bind`.

The parser looks at tokens that it does not take, and it asks whether the source
has ended. What follows can make a difference only if the tokens give out before
the parser stops. So the moved tokens either have nothing behind them in both
places, or they end with a semicolon, and no parser of a declaration passes over
that (`Move.Admits`). Lists count down from the number of tokens ahead, so the
two parsers that are compared may differ in their bounds.
-/

namespace GoInventory

/-- A change of place: the tokens are moved by `shift` bytes, the tokens of
`tail` follow them, and the source they are in has the length `length`. -/
structure Move where
  shift : Nat
  tail : List Token
  length : Nat

namespace Move

variable {m : Move} {c : Cursor}

/-- The cursor in its new place. -/
def cursor (m : Move) (c : Cursor) : Cursor :=
  ⟨c.rest.map (Token.mapOffsets (· + m.shift)) ++ m.tail,
    c.lastStop + m.shift, m.length⟩

/-- The tokens end with the source in both places, or they end with a semicolon. -/
def Ends (m : Move) (c : Cursor) : Prop :=
  (m.tail = [] ∧ m.length = c.sourceLength + m.shift ∧ m.length ≤ Span.maxOffset) ∨
  ∃ t, c.rest.getLast? = some t ∧ t.tok = .op .semicolon

/-- What is ahead of the cursor can be moved: no span is cut in the new place,
and nothing is read behind the tokens. -/
structure Admits (m : Move) (c : Cursor) : Prop where
  tokens : ∀ t ∈ c.rest, t.start + m.shift ≤ Span.maxOffset ∧
    t.stop + m.shift ≤ Span.maxOffset
  lastStop : c.lastStop + m.shift ≤ Span.maxOffset
  ends : m.Ends c

/-- In the new place at least as many tokens are ahead. -/
theorem length_le_cursor (m : Move) (c : Cursor) :
    c.rest.length ≤ (m.cursor c).rest.length := by
  simp [cursor]

/-- The first token ahead is the same one, moved. -/
theorem cursor_rest {t : Token} {rest : List Token} (h : c.rest = t :: rest) :
    (m.cursor c).rest
      = t.mapOffsets (· + m.shift)
        :: (rest.map (Token.mapOffsets (· + m.shift)) ++ m.tail) := by
  simp [cursor, h]

namespace Admits

/-- Where a token other than a semicolon is the last one, nothing follows in
the new place. -/
theorem tail_eq_nil (h : m.Admits c) {run : List Token} {t : Token}
    (hrest : c.rest = run ++ [t]) (ht : t.tok ≠ .op .semicolon) : m.tail = [] := by
  rcases h.ends with ⟨htail, -, -⟩ | ⟨u, hlast, hu⟩
  · exact htail
  · rw [hrest, List.getLast?_concat] at hlast
    cases hlast
    exact absurd hu ht

/-- Where no token is ahead, none is in the new place. -/
theorem cursor_rest_nil (h : m.Admits c) (hrest : c.rest = []) :
    (m.cursor c).rest = [] := by
  rcases h.ends with ⟨htail, -, -⟩ | ⟨t, hlast, -⟩
  · simp [cursor, hrest, htail]
  · rw [hrest] at hlast
    cases hlast

/-- Passing over tokens leaves what can be moved, if the last of them is no
semicolon or tokens are left. -/
theorem skip (h : m.Admits c) {run rest : List Token} {t : Token}
    (hrest : c.rest = run ++ t :: rest) (ht : t.tok ≠ .op .semicolon ∨ rest ≠ []) :
    m.Admits (c.after t rest) := by
  have hmem : ∀ u ∈ t :: rest, u ∈ c.rest := by
    intro u hu
    rw [hrest]
    exact List.mem_append_right run hu
  refine ⟨fun u hu => h.tokens u (hmem u (List.mem_cons_of_mem t hu)),
    (h.tokens t (hmem t List.mem_cons_self)).2, ?_⟩
  rcases h.ends with htail | ⟨u, hlast, hu⟩
  · exact Or.inl htail
  · refine Or.inr ⟨u, ?_, hu⟩
    rw [hrest, List.getLast?_append, List.getLast?_cons] at hlast
    show rest.getLast? = some u
    cases hend : rest.getLast? with
    | none =>
      rw [hend] at hlast
      cases hlast
      rcases ht with ht | hne
      · exact absurd hu ht
      · exact absurd (List.getLast?_eq_none_iff.mp hend) hne
    | some last =>
      rw [hend] at hlast
      exact hlast

/-- Passing over one token leaves what can be moved. -/
theorem after (h : m.Admits c) {t : Token} {rest : List Token}
    (hrest : c.rest = t :: rest) (ht : t.tok ≠ .op .semicolon ∨ rest ≠ []) :
    m.Admits (c.after t rest) := by
  have hsplit : c.rest = [] ++ t :: rest := hrest
  exact h.skip hsplit ht

/-- The start of the next token moves. -/
theorem here (h : m.Admits c) :
    (m.cursor c).here = c.here.mapOffsets (· + m.shift) ∧
      c.here.start + m.shift ≤ Span.maxOffset := by
  have hmin : ∀ {start stop : Nat}, start + m.shift ≤ Span.maxOffset →
      (Span.clamp start stop).start + m.shift ≤ Span.maxOffset := by
    intro start stop hle
    exact Nat.le_trans (Nat.add_le_add_right (Nat.min_le_left _ _) _) hle
  cases hrest : c.rest with
  | nil =>
    have hhere : c.here = .point c.sourceLength := by
      unfold Cursor.here
      rw [hrest]
    have hmoved : (m.cursor c).here = .point m.length := by
      unfold Cursor.here
      rw [h.cursor_rest_nil hrest]
      rfl
    rcases h.ends with ⟨-, hlength, hle⟩ | ⟨t, hlast, -⟩
    · rw [hlength] at hle
      rw [hhere, hmoved, hlength]
      exact ⟨Span.clamp_add hle hle, hmin hle⟩
    · rw [hrest] at hlast
      cases hlast
  | cons t rest =>
    obtain ⟨hstart, hstop⟩ := h.tokens t (by rw [hrest]; exact List.mem_cons_self)
    have hhere : c.here = t.span := by
      unfold Cursor.here
      rw [hrest]
    have hmoved : (m.cursor c).here = (t.mapOffsets (· + m.shift)).span := by
      unfold Cursor.here
      rw [cursor_rest hrest]
    rw [hhere, hmoved]
    exact ⟨Span.clamp_add hstart hstop, hmin hstart⟩

/-- The span up to the last token moves with its start. -/
theorem since (h : m.Admits c) {s : Span} (hs : s.start + m.shift ≤ Span.maxOffset) :
    (m.cursor c).since (s.mapOffsets (· + m.shift))
      = (c.since s).mapOffsets (· + m.shift) := by
  have hmax : max (c.lastStop + m.shift) (s.start + m.shift)
      = max c.lastStop s.start + m.shift :=
    Nat.add_max_add_right _ _ _
  have hle := h.lastStop
  show Span.clamp (s.start + m.shift)
    (max (c.lastStop + m.shift) (s.start + m.shift)) = _
  rw [hmax]
  exact Span.clamp_add hs (by omega)

/-- The token behind another one that is no semicolon is the same in both places. -/
theorem peek?_succ (h : m.Admits c) {n : Nat} {tok : Tok}
    (hpeek : c.peek? n = some tok) (htok : tok ≠ .op .semicolon) :
    (m.cursor c).peek? (n + 1) = c.peek? (n + 1) := by
  obtain ⟨t, ht, rfl⟩ := Option.map_eq_some_iff.mp hpeek
  have hsame : n + 1 < c.rest.length ∨ m.tail = [] := by
    rcases Nat.lt_or_ge (n + 1) c.rest.length with hmore | hend
    · exact Or.inl hmore
    · -- the token before it is the last one
      obtain ⟨hlt, hget⟩ := List.getElem?_eq_some_iff.mp ht
      have hlast : c.rest = c.rest.take n ++ [t] := by
        rw [← hget, ← List.take_succ_eq_append_getElem hlt,
          List.take_of_length_le hend]
      exact Or.inr (h.tail_eq_nil hlast htok)
  unfold Cursor.peek? cursor
  dsimp only
  rcases hsame with hmore | htail
  · rw [List.getElem?_append_left (by rwa [List.length_map]), List.getElem?_map,
      Option.map_map]
    rfl
  · rw [htail, List.append_nil, List.getElem?_map, Option.map_map]
    rfl

/-- The next token is the same one in both places. -/
theorem peek?_zero (h : m.Admits c) : (m.cursor c).peek? 0 = c.peek? 0 := by
  cases hrest : c.rest with
  | nil => simp [Cursor.peek?, hrest, h.cursor_rest_nil hrest]
  | cons t rest => simp [Cursor.peek?, hrest, cursor_rest hrest, Token.mapOffsets]

end Admits

end Move

namespace Parser

open Grammar

variable {α β γ δ : Type} {m : Move} {c : Cursor}

/-- If the parser `p` succeeds at the cursor, then `p'` succeeds in the new
place, and gives the image of the value. -/
def MovesAt (m : Move) (g : α → β) (p : Parser α) (p' : Parser β) (c : Cursor) :
    Prop :=
  ∀ ⦃a : α⦄ ⦃c' : Cursor⦄, m.Admits c → p c = .ok (a, c') →
    m.Admits c' ∧ p' (m.cursor c) = .ok (g a, m.cursor c')

/-- The parser `p` moves to `p'`, wherever it is run. -/
def Moves (m : Move) (g : α → β) (p : Parser α) (p' : Parser β) : Prop :=
  ∀ c, MovesAt m g p p' c

/-! ## Combining -/

section Combining

variable {g : α → β} {h : γ → δ} {p : Parser α} {p' : Parser β}

theorem MovesAt.pure {a : α} {b : β} (hg : g a = b) :
    MovesAt m g (pure a) (pure b) c := by
  intro a' c' hc heq
  cases heq
  exact ⟨hc, by rw [hg]; rfl⟩

/-- Parsers that move do so one after the other. -/
theorem MovesAt.bind {f : α → Parser γ} {f' : β → Parser δ} (hp : MovesAt m g p p' c)
    (hf : ∀ a, Moves m h (f a) (f' (g a))) : MovesAt m h (p >>= f) (p' >>= f') c := by
  intro b c' hc heq
  obtain ⟨a, d, hpa, hfa⟩ := bind_eq_ok_iff.mp heq
  obtain ⟨hd, hp'⟩ := hp hc hpa
  obtain ⟨hc', hf'⟩ := hf a d hd hfa
  exact ⟨hc', by rw [bind_ok hp', hf']⟩

theorem Moves.bind {f : α → Parser γ} {f' : β → Parser δ} (hp : Moves m g p p')
    (hf : ∀ a, Moves m h (f a) (f' (g a))) : Moves m h (p >>= f) (p' >>= f') :=
  fun c => (hp c).bind hf

/-- A parser that fails moves to every other. -/
theorem movesAt_of_error {e : SyntaxError} (hp : p c = .error e) :
    MovesAt m g p p' c := by
  intro a c' _ heq
  rw [hp] at heq
  cases heq

/-- A parser that stops moves to anything, as only success is compared. -/
theorem movesAt_unexpected {expected : Expected} :
    MovesAt m g (unexpected expected) p' c :=
  movesAt_of_error rfl

/-- What a look ahead finds has to be the same in both places, if the parser
succeeds with it. -/
theorem MovesAt.ask {f : α → Parser γ} {f' : β → Parser δ} {look : Cursor → α}
    {look' : Cursor → β}
    (hlook : m.Admits c → (∃ r, f (look c) c = .ok r) →
      look' (m.cursor c) = g (look c))
    (hf : MovesAt m h (f (look c)) (f' (g (look c))) c) :
    MovesAt m h (ask look >>= f) (ask look' >>= f') c := by
  intro b c' hc heq
  obtain ⟨hc', hf'⟩ := hf hc heq
  refine ⟨hc', ?_⟩
  show f' (look' (m.cursor c)) (m.cursor c) = _
  rw [hlook hc ⟨_, heq⟩, hf']

/-- Both parsers choose by the same token. -/
theorem MovesAt.peek {f : Option Tok → Parser γ} {f' : Option Tok → Parser δ}
    (hf : ∀ r, c.peek? 0 = r → MovesAt m h (f r) (f' r) c) :
    MovesAt m h (peek? 0 >>= f) (peek? 0 >>= f') c :=
  .ask (g := id) (fun hc _ => hc.peek?_zero) (hf _ rfl)

theorem MovesAt.isNext {tok : Tok} {f : Bool → Parser γ} {f' : Bool → Parser δ}
    (hf : ∀ b, (c.peek? 0 == some tok) = b → MovesAt m h (f b) (f' b) c) :
    MovesAt m h (isNext tok >>= f) (isNext tok >>= f') c :=
  .ask (g := id) (fun hc _ => congrArg (· == some tok) hc.peek?_zero) (hf _ rfl)

/-- The span of the next token moves, and so do the spans that start there. -/
theorem MovesAt.here {f : Span → Parser γ} {f' : Span → Parser δ}
    (hf : ∀ s, s.start + m.shift ≤ Span.maxOffset →
      MovesAt m h (f s) (f' (s.mapOffsets (· + m.shift))) c) :
    MovesAt m h (here >>= f) (here >>= f') c := by
  intro b c' hc heq
  obtain ⟨hhere, hs⟩ := hc.here
  obtain ⟨hc', hf'⟩ := hf _ hs hc heq
  refine ⟨hc', ?_⟩
  show f' (m.cursor c).here (m.cursor c) = _
  rw [hhere, hf']

/-- A span moves if its start and its end do. -/
theorem moves_since {s : Span} (hs : s.start + m.shift ≤ Span.maxOffset) :
    Moves m (Span.mapOffsets (· + m.shift)) (since s)
      (since (s.mapOffsets (· + m.shift))) := by
  intro c a c' hc heq
  cases heq
  refine ⟨hc, ?_⟩
  show Except.ok ((m.cursor c).since _, _) = _
  rw [hc.since hs]

/-- In the new place the bound may be larger. -/
theorem moves_bounded {q : Nat → Parser α} {q' : Nat → Parser β}
    (hq : ∀ c n n', c.rest.length < n → n ≤ n' → MovesAt m g (q n) (q' n') c) :
    Moves m g (bounded q) (bounded q') := by
  intro c a c' hc heq
  exact hq c _ _ (Nat.lt_succ_self _) (Nat.succ_le_succ (m.length_le_cursor c)) hc heq

end Combining

/-! ## Single tokens -/

section Steps

variable {tok : Tok}

/-- A token other than a semicolon is passed over in both places. -/
theorem movesAt_advance (hpeek : c.peek? 0 = some tok) (htok : tok ≠ .op .semicolon) :
    MovesAt m id advance advance c := by
  intro a c' hc heq
  dsimp only [advance, AtCursor.advance] at heq ⊢
  split at heq
  next hrest => simp [Cursor.peek?, hrest] at hpeek
  next t rest hrest =>
    cases heq
    have ht : t.tok = tok := by simpa [Cursor.peek?, hrest] using hpeek
    rw [Move.cursor_rest hrest]
    exact ⟨hc.after hrest (Or.inl (by rw [ht]; exact htok)), rfl⟩

/-- Taking a token moves, unless it is the last semicolon. -/
theorem eat_moves {b : Bool} {c' : Cursor} (hc : m.Admits c)
    (h : (eat tok : Parser Bool) c = .ok (b, c'))
    (hleft : tok ≠ .op .semicolon ∨ c'.rest ≠ []) :
    m.Admits c' ∧ (eat tok : Parser Bool) (m.cursor c) = .ok (b, m.cursor c') := by
  dsimp only [eat, AtCursor.eat] at h ⊢
  split at h
  next hrest =>
    cases h
    rw [hc.cursor_rest_nil hrest]
    exact ⟨hc, rfl⟩
  next t rest hrest =>
    rw [Move.cursor_rest hrest]
    dsimp only [Token.mapOffsets]
    split at h
    next ht =>
      cases h
      rw [if_pos ht]
      exact ⟨hc.after hrest (by rw [ht]; exact hleft), rfl⟩
    next ht =>
      cases h
      rw [if_neg ht]
      exact ⟨hc, rfl⟩

/-- Whether a token is next can be asked in both places, if it is
not a semicolon. -/
theorem moves_eat (htok : tok ≠ .op .semicolon) : Moves m id (eat tok) (eat tok) :=
  fun _ _ _ hc h => eat_moves hc h (Or.inl htok)

/-- The same for a token that the grammar demands. -/
theorem moves_expect {expected : Expected} (htok : tok ≠ .op .semicolon) :
    Moves m id (expect tok expected) (expect tok expected) := by
  refine (moves_eat htok).bind fun b c => ?_
  cases b with
  | true => exact .pure rfl
  | false => exact movesAt_unexpected

/-- An identifier moves with its token. -/
theorem moves_ident : Moves m (Ident.mapOffsets (· + m.shift)) ident ident := by
  intro c n c' hc heq
  dsimp only [ident, AtCursor.ident] at heq ⊢
  split at heq
  next start name stop rest hrest =>
    cases heq
    obtain ⟨hstart, hstop⟩ := hc.tokens _ (by rw [hrest]; exact List.mem_cons_self)
    rw [Move.cursor_rest hrest]
    refine ⟨hc.after hrest (Or.inl nofun), ?_⟩
    dsimp only [Token.mapOffsets, Ident.mapOffsets]
    rw [Span.clamp_add hstart hstop]
    rfl
  next => cases heq

/-- A string literal moves with its token. -/
theorem moves_stringLit :
    Moves m (StringLit.mapOffsets (· + m.shift)) stringLit stringLit := by
  intro c lit c' hc heq
  dsimp only [stringLit, AtCursor.stringLit] at heq ⊢
  split at heq
  next start text stop rest hrest =>
    cases heq
    obtain ⟨hstart, hstop⟩ := hc.tokens _ (by rw [hrest]; exact List.mem_cons_self)
    rw [Move.cursor_rest hrest]
    refine ⟨hc.after hrest (Or.inl nofun), ?_⟩
    dsimp only [Token.mapOffsets, StringLit.mapOffsets]
    rw [Span.clamp_add hstart hstop]
    rfl
  next start text stop rest hrest =>
    cases heq
    obtain ⟨hstart, hstop⟩ := hc.tokens _ (by rw [hrest]; exact List.mem_cons_self)
    rw [Move.cursor_rest hrest]
    refine ⟨hc.after hrest (Or.inl nofun), ?_⟩
    dsimp only [Token.mapOffsets, StringLit.mapOffsets]
    rw [Span.clamp_add hstart hstop]
    rfl
  next => cases heq

end Steps

/-! ## Lists -/

section Lists

variable {g : α → β} {item : Parser α} {item' : Parser β} {close separator : Operator}
  {itemEnd : Expected} {spelled : α → List Token → Prop}

/-- A list moves item by item, up to the token that closes it. -/
theorem moves_commaItems (hclose : close ≠ .semicolon) (hitem : Moves m g item item')
    (n : Nat) :
    ∀ n', n ≤ n' → Moves m (List.map g) (commaItems close itemEnd item n)
      (commaItems close itemEnd item' n') := by
  induction n with
  | zero => exact fun n' _ c => movesAt_of_error rfl
  | succ n ih =>
    intro n' hn'
    obtain ⟨n', rfl⟩ :=
      Nat.exists_eq_add_of_le' (Nat.le_trans (Nat.le_add_left 1 n) hn')
    have hrest := ih n' (Nat.le_of_succ_le_succ hn')
    refine (moves_eat (by simpa using hclose)).bind fun closes c => ?_
    cases closes with
    | true => exact .pure rfl
    | false =>
      refine (hitem c).bind fun first c => ?_
      refine (moves_eat (by decide) c).bind fun goesOn c => ?_
      cases goesOn with
      | true => exact (hrest c).bind fun others c => .pure rfl
      | false =>
        exact (moves_expect (by simpa using hclose) c).bind fun _ c => .pure rfl

theorem moves_commaList (hclose : close ≠ .semicolon) (hitem : Moves m g item item') :
    Moves m (List.map g) (commaList close itemEnd item)
      (commaList close itemEnd item') :=
  moves_bounded fun c n n' _ hle => moves_commaItems hclose hitem n n' hle c

/-- The end of a member moves, if tokens are left behind it. -/
theorem memberEnd_moves {expected : Expected} {c' : Cursor} (hc : m.Admits c)
    (h : (memberEnd close expected : Parser Unit) c = .ok ((), c'))
    (hleft : c'.rest ≠ []) :
    m.Admits c' ∧ (memberEnd close expected : Parser Unit)
      (m.cursor c) = .ok ((), m.cursor c') := by
  obtain ⟨b, d, heat, h⟩ := bind_eq_ok_iff.mp h
  cases b with
  | true =>
    cases h
    obtain ⟨hd, heat'⟩ := eat_moves hc heat (Or.inr hleft)
    exact ⟨hd, by unfold memberEnd; rw [bind_ok heat']; rfl⟩
  | false =>
    rw [if_neg Bool.false_ne_true, isNext_bind] at h
    split at h
    next hnext =>
      cases h
      obtain ⟨hd, heat'⟩ := eat_moves hc heat (Or.inr hleft)
      refine ⟨hd, ?_⟩
      unfold memberEnd
      rw [bind_ok heat', if_neg Bool.false_ne_true, isNext_bind, hd.peek?_zero,
        if_pos hnext]
      rfl
    next => cases h

/-- A list of members is never empty of tokens, so it cannot start where
none is left. -/
theorem rest_ne_nil_of_memberItems (htakes : Takes .anywhere item spelled) {n : Nat}
    {as : List α} {c' : Cursor}
    (h : memberItems close itemEnd item n c = .ok (as, c')) : c.rest ≠ [] := by
  obtain ⟨run, hp, hlisted⟩ := takes_memberItems htakes n h trivial
  rw [hp.rest]
  cases hlisted <;> simp

/-- The semicolon behind a member may be the last token, but not the last one of
a list: the operator that closes the list is still ahead. -/
theorem moves_memberItems (hclose : close ≠ .semicolon) (hitem : Moves m g item item')
    (htakes : Takes .anywhere item spelled) (n : Nat) :
    ∀ n', n ≤ n' → Moves m (List.map g) (memberItems close itemEnd item n)
      (memberItems close itemEnd item' n') := by
  induction n with
  | zero => exact fun n' _ c => movesAt_of_error rfl
  | succ n ih =>
    intro n' hn'
    obtain ⟨n', rfl⟩ :=
      Nat.exists_eq_add_of_le' (Nat.le_trans (Nat.le_add_left 1 n) hn')
    have hrest := ih n' (Nat.le_of_succ_le_succ hn')
    refine (moves_eat (by simpa using hclose)).bind fun closes c => ?_
    cases closes with
    | true => exact .pure rfl
    | false =>
      refine (hitem c).bind fun first c => ?_
      intro as c' hc heq
      obtain ⟨_, d, hend, heq⟩ := bind_eq_ok_iff.mp heq
      obtain ⟨others, e, hothers, heq⟩ := bind_eq_ok_iff.mp heq
      cases heq
      obtain ⟨hd, hend'⟩ :=
        memberEnd_moves hc hend (rest_ne_nil_of_memberItems htakes hothers)
      obtain ⟨he, hothers'⟩ := hrest d hd hothers
      refine ⟨he, ?_⟩
      show ((memberEnd close itemEnd : Parser Unit) >>= _) (m.cursor c) = _
      rw [bind_ok hend', bind_ok hothers']
      rfl

/-- The semicolons in a list of members are not the last tokens, as the list is
closed behind them. -/
theorem moves_memberList (hclose : close ≠ .semicolon) (hitem : Moves m g item item')
    (htakes : Takes .anywhere item spelled) :
    Moves m (List.map g) (memberList close itemEnd item)
      (memberList close itemEnd item') :=
  moves_bounded fun c n n' _ hle => moves_memberItems hclose hitem htakes n n' hle c

/-- With a bound that covers the tokens ahead the list ends before
the bound does. -/
theorem moves_separatedItems (hsep : separator ≠ .semicolon)
    (hitem : Moves m g item item') (htakes : Takes .anywhere item spelled) (n : Nat) :
    ∀ (c : Cursor) (n' : Nat), c.rest.length < n → n ≤ n' →
      MovesAt m (List.map g) (separatedItems separator item n)
        (separatedItems separator item' n') c := by
  induction n with
  | zero => exact fun c n' hlt _ => absurd hlt (Nat.not_lt_zero _)
  | succ n ih =>
    intro c n' hlt hn' as c' hc heq
    obtain ⟨n', rfl⟩ :=
      Nat.exists_eq_add_of_le' (Nat.le_trans (Nat.le_add_left 1 n) hn')
    obtain ⟨first, d, hfirst, heq⟩ := bind_eq_ok_iff.mp heq
    obtain ⟨goesOn, e, heat, heq⟩ := bind_eq_ok_iff.mp heq
    obtain ⟨hd, hfirst'⟩ := hitem c hc hfirst
    obtain ⟨he, heat'⟩ := moves_eat (by simpa using hsep) d hd heat
    show _ ∧ (item' >>= _) (m.cursor c) = _
    rw [bind_ok hfirst', bind_ok heat']
    cases goesOn with
    | false =>
      cases heq
      exact ⟨he, rfl⟩
    | true =>
      -- the separator was taken, so fewer tokens are ahead
      have hshort : e.rest.length < n := by
        obtain ⟨run, hp, -⟩ := htakes hfirst trivial
        rcases eat_ok heat with ⟨-, sep, -, hp'⟩ | ⟨hfalse, -, -⟩
        · have hlen := congrArg List.length (hp.trans hp').rest
          simp only [List.length_append, List.length_cons, List.length_nil] at hlen
          omega
        · cases hfalse
      obtain ⟨others, f, hothers, heq⟩ := bind_eq_ok_iff.mp heq
      cases heq
      obtain ⟨hf, hothers'⟩ := ih e n' hshort (Nat.le_of_succ_le_succ hn') he hothers
      refine ⟨hf, ?_⟩
      show (separatedItems separator item' n' >>= _) (m.cursor e) = _
      rw [bind_ok hothers']
      rfl

/-- A list that is only separated ends alike, since the token behind it is
the same one. -/
theorem moves_separatedList (hsep : separator ≠ .semicolon)
    (hitem : Moves m g item item') (htakes : Takes .anywhere item spelled) :
    Moves m (List.map g) (separatedList separator item)
      (separatedList separator item') :=
  moves_bounded fun c n n' hlt hle =>
    moves_separatedItems hsep hitem htakes n c n' hlt hle

theorem moves_identList :
    Moves m (List.map (Ident.mapOffsets (· + m.shift))) identList identList :=
  moves_separatedList (by decide) moves_ident takes_ident

end Lists

end Parser

end GoInventory
