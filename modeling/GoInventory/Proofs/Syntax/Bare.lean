import GoInventory.Proofs.Syntax.Offsets
import GoInventory.Proofs.Syntax.Takes
import GoInventory.Proofs.Token.LineBreak

/-!
# Reading tokens without their places

A parser carries places along: every node of the tree has a span, and so has
every error. It must not decide anything by them. So each parser is run twice,
once as it is and once on the same tokens with all offsets set to zero
(`Cursor.bare`). The two runs mirror each other (`Mirrors`): both stop, or both
give a value, and the second value is the first without its spans.

Along the way it is shown that the places a parser reports are places of the
source: if the tokens stand within the first `n` bytes, then the span of an
error does so, too (`Span.Within`). The span of an error may be that of a value
read before, as with a parameter that lacks its type, so a parser may promise
more of its value (`MirrorsWith`).
-/

namespace GoInventory

/-- The span does not end before it starts, nor behind the first `n` bytes. -/
structure Span.Within (n : Nat) (s : Span) : Prop where
  ordered : s.start ≤ s.stop
  stop_le : s.stop ≤ n

/-- A span between two offsets within the source is one. -/
theorem Span.Within.clamp {n start stop : Nat} (h : start ≤ stop) (hstop : stop ≤ n) :
    (Span.clamp start stop).Within n :=
  ⟨by simp only [Span.clamp]; omega, by simp only [Span.clamp]; omega⟩

namespace Cursor

variable {n : Nat} {c : Cursor}

/-- The cursor before the same tokens, with all offsets set to zero. -/
def bare (c : Cursor) : Cursor :=
  ⟨c.rest.map (Token.mapOffsets forget), 0, 0⟩

/-- Everything that the cursor knows of is within the first `n` bytes. -/
structure Within (n : Nat) (c : Cursor) : Prop where
  tokens : ∀ t ∈ c.rest, t.start ≤ t.stop ∧ t.stop ≤ n
  lastStop : c.lastStop ≤ n
  sourceLength : c.sourceLength ≤ n

/-- A cursor stays within the source behind any of the tokens ahead. -/
theorem Within.skip (h : c.Within n) {run rest : List Token} {t : Token}
    (hrest : c.rest = run ++ t :: rest) : (c.after t rest).Within n := by
  have hmem : ∀ u ∈ t :: rest, u ∈ c.rest := by
    intro u hu
    rw [hrest]
    exact List.mem_append_right run hu
  exact ⟨fun u hu => h.tokens u (hmem u (List.mem_cons_of_mem t hu)),
    (h.tokens t (hmem t List.mem_cons_self)).2,
    h.sourceLength⟩

theorem Within.after (h : c.Within n) {t : Token} {rest : List Token}
    (hrest : c.rest = t :: rest) : (c.after t rest).Within n := by
  have hsplit : c.rest = [] ++ t :: rest := hrest
  exact h.skip hsplit

/-- The span of what is next lies within the source. -/
theorem Within.here (h : c.Within n) : c.here.Within n := by
  unfold Cursor.here
  split
  next => exact .clamp (Nat.le_refl _) h.sourceLength
  next t rest hrest =>
    obtain ⟨hle, hstop⟩ := h.tokens t (by rw [hrest]; exact List.mem_cons_self)
    exact .clamp hle hstop

/-- A span that was begun within the source ends there. -/
theorem Within.since (h : c.Within n) {s : Span} (hs : s.Within n) :
    (c.since s).Within n :=
  .clamp (Nat.le_max_right _ _)
    (Nat.max_le.mpr ⟨h.lastStop, Nat.le_trans hs.ordered hs.stop_le⟩)

/-- Without places there are as many tokens ahead, so none if there were none. -/
theorem bare_nil (h : c.rest = []) : c.bare.rest = [] := by
  simp [bare, h]

/-- The first token ahead is the same one, without its place. -/
theorem bare_rest {t : Token} {rest : List Token} (h : c.rest = t :: rest) :
    c.bare.rest = t.mapOffsets forget :: rest.map (Token.mapOffsets forget) := by
  simp [bare, h]

/-- The span of what is next has lost its place. -/
theorem bare_here (c : Cursor) : c.bare.here = c.here.mapOffsets forget := by
  dsimp only [here, AtCursor.here]
  cases hrest : c.rest with
  | nil => simp only [bare, hrest, List.map_nil]; rfl
  | cons t rest => rw [bare_rest hrest]; rfl

/-- Looking ahead sees the same tokens. -/
theorem bare_peek? (c : Cursor) (k : Nat) : c.bare.peek? k = c.peek? k := by
  simp only [peek?, bare, List.getElem?_map, Option.map_map]
  rfl

end Cursor

namespace Parser

variable {α β γ δ : Type} {n : Nat}

/-- Two runs end alike: both stop, the first at a place within the first
`n` bytes, or the second gives the image of what the first one gives, at
the same tokens. -/
inductive Mirrored (n : Nat) (P : α → Prop) (g : α → β) :
    Except SyntaxError (α × Cursor) → Except SyntaxError (β × Cursor) → Prop
  | ok {a : α} {c : Cursor} : c.Within n → P a →
      Mirrored n P g (.ok (a, c)) (.ok (g a, c.bare))
  | error {e e' : SyntaxError} : e.span.Within n →
      Mirrored n P g (.error e) (.error e')

/-- Without offsets `p'` does what `p` does, and the values of `p` have the
property `P`. -/
def MirrorsWith (n : Nat) (P : α → Prop) (g : α → β) (p : Parser α) (p' : Parser β) :
    Prop :=
  ∀ c, c.Within n → Mirrored n P g (p c) (p' c.bare)

/-- Without offsets `p'` does what `p` does. -/
abbrev Mirrors (n : Nat) (g : α → β) (p : Parser α) (p' : Parser β) : Prop :=
  MirrorsWith n (fun _ => True) g p p'

/-! ## Combining -/

section Combining

variable {P : α → Prop} {Q : γ → Prop} {g : α → β} {h : γ →
  δ} {p : Parser α} {p' : Parser β}

/-- The second parser may rely on what the first one says of its value. -/
theorem MirrorsWith.bind {f : α → Parser γ} {f' : β → Parser δ}
    (hp : MirrorsWith n P g p p') (hf : ∀ a, P a → MirrorsWith n Q h (f a) (f' (g a))) :
    MirrorsWith n Q h (p >>= f) (p' >>= f') := by
  intro c hc
  have hend := hp c hc
  rw [bind_apply, bind_apply]
  generalize p c = r, p' c.bare = r' at hend
  cases hend with
  | ok hd ha => exact hf _ ha _ hd
  | error he => exact .error he

/-- The same, whatever the values are like. -/
theorem MirrorsWith.mirrors (hp : MirrorsWith n P g p p') : Mirrors n g p p' := by
  intro c hc
  have hend := hp c hc
  generalize p c = r, p' c.bare = r' at hend ⊢
  cases hend with
  | ok hd _ => exact .ok hd trivial
  | error he => exact .error he

theorem MirrorsWith.pure {a : α} {b : β} (hg : g a = b) (ha : P a) :
    MirrorsWith n P g (pure a) (pure b) := by
  intro c hc
  rw [← hg]
  exact .ok hc ha

theorem mirrors_pure {a : α} {b : β} (hg : g a = b) : Mirrors n g (pure a) (pure b) :=
  .pure hg trivial

/-- Both take the same branch. -/
theorem MirrorsWith.ite {b : Prop} [Decidable b] {q : Parser α} {q' : Parser β}
    (hp : b → MirrorsWith n P g p p') (hq : ¬ b → MirrorsWith n P g q q') :
    MirrorsWith n P g (if b then p else q) (if b then p' else q') := by
  split
  next hb => exact hp hb
  next hb => exact hq hb

/-- A look at the cursor mirrors if what it finds does. -/
theorem mirrors_ask {look : Cursor → α} {look' : Cursor → β}
    (hlook : ∀ c, look' c.bare = g (look c)) :
    Mirrors n g (ask look) (ask look') := by
  intro c hc
  unfold ask
  rw [hlook]
  exact .ok hc trivial

/-- An error has a span within the source on one side, and one without a
place on the other.
-/
theorem mirrors_unexpected {expected : Expected} :
    MirrorsWith n P g (unexpected expected) (unexpected expected) :=
  fun _ hc => .error hc.here

/-- The same for an error with a span of its own. -/
theorem mirrors_fail {s s' : Span} {fault : SyntaxFault} (hs : s.Within n) :
    MirrorsWith n P g (fail s fault) (fail s' fault) :=
  fun _ _ => .error hs

/-- Both have the same number of tokens ahead, and so the same bound. -/
theorem mirrors_bounded {q : Nat → Parser α} {q' : Nat → Parser β}
    (hq : ∀ bound, MirrorsWith n P g (q bound) (q' bound)) :
    MirrorsWith n P g (bounded q) (bounded q') := by
  intro c hc
  dsimp only [bounded, AtCursor.bounded]
  rw [show c.bare.rest.length = c.rest.length from List.length_map _]
  exact hq _ c hc

end Combining

/-! ## Places and single tokens -/

theorem mirrors_here :
    MirrorsWith n (Span.Within n) (Span.mapOffsets forget) here here := by
  intro c hc
  show Mirrored n _ _ (.ok (c.here, c)) (.ok (c.bare.here, c.bare))
  rw [c.bare_here]
  exact .ok hc hc.here

/-- A construct gets a span within the source. -/
theorem mirrors_since {s : Span} (hs : s.Within n) :
    MirrorsWith n (Span.Within n) (Span.mapOffsets forget) (since s)
      (since (s.mapOffsets forget)) :=
  fun _ hc => .ok hc (hc.since hs)

theorem mirrors_peek (k : Nat) : Mirrors n id (peek? k) (peek? k) :=
  mirrors_ask fun c => c.bare_peek? k

theorem mirrors_isNext (tok : Tok) : Mirrors n id (isNext tok) (isNext tok) :=
  mirrors_ask fun c => congrArg (· == some tok) (c.bare_peek? 0)

theorem mirrors_advance : Mirrors n id advance advance := by
  intro c hc
  dsimp only [advance, AtCursor.advance]
  cases hrest : c.rest with
  | nil =>
    rw [Cursor.bare_nil hrest]
    exact .ok hc trivial
  | cons t rest =>
    rw [Cursor.bare_rest hrest]
    exact .ok (hc.after hrest) trivial

/-- Whether a token is next does not depend on its place. -/
theorem mirrors_eat (tok : Tok) : Mirrors n id (eat tok) (eat tok) := by
  intro c hc
  dsimp only [eat, AtCursor.eat]
  cases hrest : c.rest with
  | nil =>
    rw [Cursor.bare_nil hrest]
    exact .ok hc trivial
  | cons t rest =>
    rw [Cursor.bare_rest hrest]
    dsimp only [Token.mapOffsets]
    split
    · exact .ok (hc.after hrest) trivial
    · exact .ok hc trivial

theorem mirrors_expect (tok : Tok) (expected : Expected) :
    Mirrors n id (expect tok expected) (expect tok expected) :=
  (mirrors_eat tok).bind fun _ _ =>
    .ite (fun _ => mirrors_pure rfl) fun _ => mirrors_unexpected

theorem mirrors_terminator (expected : Expected) :
    Mirrors n id (terminator expected) (terminator expected) := by
  intro c hc
  dsimp only [terminator, AtCursor.terminator]
  cases hrest : c.rest with
  | nil =>
    rw [Cursor.bare_nil hrest]
    exact .ok hc trivial
  | cons t rest =>
    rw [Cursor.bare_rest hrest]
    dsimp only [Token.mapOffsets]
    split
    · exact .ok (hc.after hrest) trivial
    · exact .error hc.here

/-- A token that a parser takes as a whole, with its span. -/
theorem mirrored_taken {P : α → Prop} {g : α → β} {c : Cursor} {t : Token}
    {rest : List Token} {a : α} {b : β} (hc : c.Within n) (hrest : c.rest = t :: rest)
    (ha : t.span.Within n → P a) (hb : g a = b) :
    Mirrored n P g (.ok (a, c.after t rest))
      (.ok (b, c.bare.after (t.mapOffsets forget)
        (rest.map (Token.mapOffsets forget)))) := by
  obtain ⟨hle, hstop⟩ := hc.tokens t (by rw [hrest]; exact List.mem_cons_self)
  rw [← hb]
  exact .ok (hc.after hrest) (ha (.clamp hle hstop))

/-- A name keeps its text and loses its place. -/
theorem mirrors_ident :
    MirrorsWith n (·.span.Within n) (Ident.mapOffsets forget) ident ident := by
  intro c hc
  dsimp only [ident, AtCursor.ident]
  cases hrest : c.rest with
  | nil =>
    rw [Cursor.bare_nil hrest]
    exact .error hc.here
  | cons t rest =>
    rw [Cursor.bare_rest hrest]
    obtain ⟨start, tok, stop⟩ := t
    cases tok with
    | ident name => exact mirrored_taken hc hrest (fun hs => hs) rfl
    | _ => exact .error hc.here

/-- A string literal keeps its text and loses its place. -/
theorem mirrors_stringLit :
    Mirrors n (StringLit.mapOffsets forget) stringLit stringLit := by
  intro c hc
  dsimp only [stringLit, AtCursor.stringLit]
  cases hrest : c.rest with
  | nil =>
    rw [Cursor.bare_nil hrest]
    exact .error hc.here
  | cons t rest =>
    rw [Cursor.bare_rest hrest]
    obtain ⟨start, tok, stop⟩ := t
    cases tok with
    | literal kind text =>
      cases kind with
      | string | rawString => exact mirrored_taken hc hrest (fun _ => trivial) rfl
      | _ => exact .error hc.here
    | _ => exact .error hc.here

/-! ## Lists -/

section Lists

variable {P : α → Prop} {g : α → β} {item : Parser α} {item' : Parser β}

/-- Lists mirror item by item, and what is known of each item is known
of all of them. -/
theorem mirrors_commaItems {close : Operator} {itemEnd : Expected}
    (hitem : MirrorsWith n P g item item') (bound : Nat) :
    MirrorsWith n (∀ a ∈ ·, P a) (List.map g) (commaItems close itemEnd item bound)
      (commaItems close itemEnd item' bound) := by
  induction bound with
  | zero => exact mirrors_unexpected
  | succ bound ih =>
    refine (mirrors_eat _).bind fun closes _ => ?_
    refine .ite (fun _ => .pure rfl nofun) fun _ => ?_
    refine hitem.bind fun first hfirst => ?_
    refine (mirrors_eat _).bind fun more _ => ?_
    refine .ite (fun _ => ?_) fun _ => ?_
    · refine ih.bind fun others hothers => .pure rfl ?_
      exact List.forall_mem_cons.mpr ⟨hfirst, hothers⟩
    · exact (mirrors_expect _ _).bind
        fun _ _ => .pure rfl (List.forall_mem_singleton.mpr hfirst)

/-- The same for the whole list, with the bound that the cursor gives. -/
theorem mirrors_commaList {close : Operator} {itemEnd : Expected}
    (hitem : MirrorsWith n P g item item') :
    MirrorsWith n (∀ a ∈ ·, P a) (List.map g) (commaList close itemEnd item)
      (commaList close itemEnd item') :=
  mirrors_bounded (mirrors_commaItems hitem)

theorem mirrors_memberEnd (close : Operator) (expected : Expected) :
    Mirrors n id (memberEnd close expected) (memberEnd close expected) := by
  refine (mirrors_eat _).bind fun ended _ => ?_
  refine .ite (fun _ => mirrors_pure rfl) fun _ => ?_
  refine (mirrors_isNext _).bind fun closes _ => ?_
  exact .ite (fun _ => mirrors_pure rfl) fun _ => mirrors_unexpected

theorem mirrors_memberItems {close : Operator} {itemEnd : Expected}
    (hitem : Mirrors n g item item') (bound : Nat) :
    Mirrors n (List.map g) (memberItems close itemEnd item bound)
      (memberItems close itemEnd item' bound) := by
  induction bound with
  | zero => exact mirrors_unexpected
  | succ bound ih =>
    refine (mirrors_eat _).bind fun closes _ => ?_
    refine .ite (fun _ => mirrors_pure rfl) fun _ => ?_
    refine hitem.bind fun first _ => ?_
    refine (mirrors_memberEnd _ _).bind fun _ _ => ?_
    exact ih.bind fun others _ => mirrors_pure rfl

/-- Members mirror one by one. -/
theorem mirrors_memberList {close : Operator} {itemEnd : Expected}
    (hitem : Mirrors n g item item') :
    Mirrors n (List.map g) (memberList close itemEnd item)
      (memberList close itemEnd item') :=
  mirrors_bounded (mirrors_memberItems hitem)

theorem mirrors_separatedItems {separator : Operator}
    (hitem : MirrorsWith n P g item item') (bound : Nat) :
    Mirrors n (List.map g) (separatedItems separator item bound)
      (separatedItems separator item' bound) := by
  induction bound with
  | zero => exact mirrors_pure rfl
  | succ bound ih =>
    refine hitem.bind fun first _ => ?_
    refine (mirrors_eat _).bind fun more _ => ?_
    refine .ite (fun _ => ?_) fun _ => mirrors_pure rfl
    exact ih.bind fun others _ => mirrors_pure rfl

/-- Items that are only separated mirror one by one. -/
theorem mirrors_separatedList {separator : Operator}
    (hitem : MirrorsWith n P g item item') :
    Mirrors n (List.map g) (separatedList separator item)
      (separatedList separator item') :=
  mirrors_bounded (mirrors_separatedItems hitem)

theorem mirrors_identList :
    Mirrors n (List.map (Ident.mapOffsets forget)) identList identList :=
  mirrors_separatedList mirrors_ident

end Lists

end Parser

end GoInventory
