import GoInventory.Syntax.TypeParser

/-!
# Balanced runs of tokens

The parser looks ahead over brackets by counting them, all kinds alike. A run of
tokens is balanced if the count comes back to where it started and never falls
below that. Such a run is stepped over by the search for a closing bracket
(`enclosed?_of_balanced`), and everything that the search steps over is one
(`enclosed?_eq_some`).
-/

namespace GoInventory

/-- The number of open brackets after the tokens, from the number before them;
none if a bracket closes that was not opened. -/
def depthAfter? : Nat → List Token → Option Nat
  | depth, [] => some depth
  | depth, t :: rest =>
    if t.tok.isOpening then depthAfter? (depth + 1) rest
    else if t.tok.isClosing then
      match depth with
      | 0 => none
      | outer + 1 => depthAfter? outer rest
    else depthAfter? depth rest

/-- Every bracket of the run is closed in it. -/
def Balanced (run : List Token) : Prop :=
  depthAfter? 0 run = some 0

/-- A token is an opening bracket, a closing bracket, or none. -/
theorem Tok.bracket_cases (t : Tok) :
    t.isOpening = true ∨ (t.isOpening = false ∧ t.isClosing = true) ∨
    (t.isOpening = false ∧ t.isClosing = false) := by
  cases ho : t.isOpening with
  | true => exact Or.inl rfl
  | false =>
    cases t.isClosing with
    | true => exact Or.inr (Or.inl ⟨rfl, rfl⟩)
    | false => exact Or.inr (Or.inr ⟨rfl, rfl⟩)

/-- No token is both an opening and a closing bracket. -/
theorem Tok.isOpening_of_isClosing {t : Tok} (h : t.isClosing = true) :
    t.isOpening = false := by
  unfold isClosing at h
  split at h
  · rfl
  · rfl
  · rfl
  · cases h

section Equations

variable {t : Token} {rest : List Token} {depth : Nat}

theorem depthAfter?_opening (h : t.tok.isOpening = true) :
    depthAfter? depth (t :: rest) = depthAfter? (depth + 1) rest := by
  cases depth <;> simp [depthAfter?, h]

theorem depthAfter?_closing_zero (h : t.tok.isClosing = true) :
    depthAfter? 0 (t :: rest) = none := by
  simp [depthAfter?, h, Tok.isOpening_of_isClosing h]

theorem depthAfter?_closing_succ (h : t.tok.isClosing = true) :
    depthAfter? (depth + 1) (t :: rest) = depthAfter? depth rest := by
  simp [depthAfter?, h, Tok.isOpening_of_isClosing h]

theorem depthAfter?_plain (ho : t.tok.isOpening = false)
    (hc : t.tok.isClosing = false) :
    depthAfter? depth (t :: rest) = depthAfter? depth rest := by
  cases depth <;> simp [depthAfter?, ho, hc]

theorem enclosed?_opening (h : t.tok.isOpening = true) :
    enclosed? depth (t :: rest)
      = (enclosed? (depth + 1) rest).map fun r => (t :: r.1, r.2) := by
  cases depth <;> simp [enclosed?, h]

theorem enclosed?_closing_zero (h : t.tok.isClosing = true) :
    enclosed? 0 (t :: rest) = some ([], t :: rest) := by
  simp [enclosed?, h, Tok.isOpening_of_isClosing h]

theorem enclosed?_closing_succ (h : t.tok.isClosing = true) :
    enclosed? (depth + 1) (t :: rest)
      = (enclosed? depth rest).map fun r => (t :: r.1, r.2) := by
  simp [enclosed?, h, Tok.isOpening_of_isClosing h]

theorem enclosed?_plain (ho : t.tok.isOpening = false) (hc : t.tok.isClosing = false) :
    enclosed? depth (t :: rest)
      = (enclosed? depth rest).map fun r => (t :: r.1, r.2) := by
  cases depth <;> simp [enclosed?, ho, hc]

end Equations

/-- Counting through two runs is counting through the first and then
through the second. -/
theorem depthAfter?_append (a b : List Token) :
    ∀ depth, depthAfter? depth (a ++ b)
      = (depthAfter? depth a).bind (depthAfter? · b) := by
  induction a with
  | nil => intro depth; rfl
  | cons t a ih =>
    intro depth
    rw [List.cons_append]
    rcases t.tok.bracket_cases with ho | ⟨-, hc⟩ | ⟨ho, hc⟩
    · rw [depthAfter?_opening ho, depthAfter?_opening ho]
      exact ih _
    · cases depth with
      | zero => rw [depthAfter?_closing_zero hc, depthAfter?_closing_zero hc]; rfl
      | succ outer =>
        rw [depthAfter?_closing_succ hc, depthAfter?_closing_succ hc]
        exact ih _
    · rw [depthAfter?_plain ho hc, depthAfter?_plain ho hc]
      exact ih _

/-- Brackets that stay open around a run do not disturb the count. -/
theorem depthAfter?_add {run : List Token} (k : Nat) :
    ∀ {depth after : Nat}, depthAfter? depth run = some after →
      depthAfter? (depth + k) run = some (after + k) := by
  induction run with
  | nil =>
    intro depth after h
    rw [depthAfter?, Option.some.injEq] at h
    rw [depthAfter?, h]
  | cons t run ih =>
    intro depth after h
    rcases t.tok.bracket_cases with ho | ⟨-, hc⟩ | ⟨ho, hc⟩
    · rw [depthAfter?_opening ho] at h ⊢
      rw [Nat.add_right_comm]
      exact ih h
    · cases depth with
      | zero => rw [depthAfter?_closing_zero hc] at h; cases h
      | succ outer =>
        rw [depthAfter?_closing_succ hc] at h
        rw [Nat.add_right_comm, depthAfter?_closing_succ hc]
        exact ih h
    · rw [depthAfter?_plain ho hc] at h ⊢
      exact ih h

namespace Balanced

theorem nil : Balanced [] := rfl

theorem append {a b : List Token} (ha : Balanced a) (hb : Balanced b) :
    Balanced (a ++ b) := by
  unfold Balanced at ha hb ⊢
  rw [depthAfter?_append, ha]
  exact hb

/-- A token that is no bracket changes nothing. -/
theorem cons {t : Token} {run : List Token} (ho : t.tok.isOpening = false)
    (hc : t.tok.isClosing = false) (h : Balanced run) : Balanced (t :: run) := by
  unfold Balanced at h ⊢
  rw [depthAfter?_plain ho hc]
  exact h

/-- A balanced run between brackets is balanced. -/
theorem enclose {o c : Token} {run : List Token} (ho : o.tok.isOpening = true)
    (hc : c.tok.isClosing = true) (h : Balanced run) :
    Balanced (o :: (run ++ [c])) := by
  have hdepth : depthAfter? 1 run = some 1 := by
    have := depthAfter?_add 1 h
    rwa [Nat.zero_add] at this
  unfold Balanced
  rw [depthAfter?_opening ho, Nat.zero_add, depthAfter?_append, hdepth,
    Option.bind_some, depthAfter?_closing_succ hc]
  rfl

end Balanced

/-! ## The search for a closing bracket -/

/-- The search goes on behind a run whose brackets it has counted. -/
theorem enclosed?_append {run rest : List Token} :
    ∀ {depth after : Nat}, depthAfter? depth run = some after →
      enclosed? depth (run ++ rest)
        = (enclosed? after rest).map fun r => (run ++ r.1, r.2) := by
  induction run with
  | nil =>
    intro depth after h
    rw [depthAfter?, Option.some.injEq] at h
    subst h
    simp
  | cons t run ih =>
    intro depth after h
    rw [List.cons_append]
    rcases t.tok.bracket_cases with ho | ⟨-, hc⟩ | ⟨ho, hc⟩
    · rw [depthAfter?_opening ho] at h
      rw [enclosed?_opening ho, ih h, Option.map_map]
      rfl
    · cases depth with
      | zero => rw [depthAfter?_closing_zero hc] at h; cases h
      | succ outer =>
        rw [depthAfter?_closing_succ hc] at h
        rw [enclosed?_closing_succ hc, ih h, Option.map_map]
        rfl
    · rw [depthAfter?_plain ho hc] at h
      rw [enclosed?_plain ho hc, ih h, Option.map_map]
      rfl

/-- The search stops at the first closing bracket behind a balanced run. -/
theorem enclosed?_of_balanced {run rest : List Token} {t : Token} (h : Balanced run)
    (ht : t.tok.isClosing = true) :
    enclosed? 0 (run ++ t :: rest) = some (run, t :: rest) := by
  rw [enclosed?_append h, enclosed?_closing_zero ht]
  simp

/-- What the search steps over leaves no bracket open, and a closing
bracket follows. -/
theorem enclosed?_eq_some {tokens : List Token} :
    ∀ {depth : Nat} {run rest : List Token},
      enclosed? depth tokens = some (run, rest) →
      tokens = run ++ rest ∧ depthAfter? depth run = some 0 ∧
      ∃ t more, rest = t :: more ∧ t.tok.isClosing = true := by
  induction tokens with
  | nil => intro depth run rest h; cases h
  | cons t tokens ih =>
    intro depth run rest h
    -- in three of the four cases the token is stepped over
    have hstep : ∀ {inner}, (enclosed? inner tokens).map (fun r => (t :: r.1, r.2))
          = some (run, rest) →
        (∀ more, depthAfter? depth (t :: more) = depthAfter? inner more) →
        t :: tokens = run ++ rest ∧ depthAfter? depth run = some 0 ∧
        ∃ u more, rest = u :: more ∧ u.tok.isClosing = true := by
      intro inner hmap hcount
      obtain ⟨⟨run', rest'⟩, hinner, heq⟩ := Option.map_eq_some_iff.mp hmap
      cases heq
      obtain ⟨rfl, hdepth, hend⟩ := ih hinner
      exact ⟨rfl, (hcount run').trans hdepth, hend⟩
    rcases t.tok.bracket_cases with ho | ⟨-, hc⟩ | ⟨ho, hc⟩
    · rw [enclosed?_opening ho] at h
      exact hstep h fun more => depthAfter?_opening ho
    · cases depth with
      | zero =>
        rw [enclosed?_closing_zero hc] at h
        cases h
        exact ⟨rfl, rfl, t, tokens, rfl, hc⟩
      | succ outer =>
        rw [enclosed?_closing_succ hc] at h
        exact hstep h fun more => depthAfter?_closing_succ hc
    · rw [enclosed?_plain ho hc] at h
      exact hstep h fun more => depthAfter?_plain ho hc

/-! ## What brackets decide -/

/-- The shape of an entry depends on the brackets only if they follow its name. -/
theorem EntryShape.afterName_congr {a b : Bool} {next : Option Tok}
    (h : next = some (.op .openBracket) → a = b) :
    afterName a next = afterName b next := by
  cases next with
  | none => rfl
  | some tok =>
    cases tok with
    | op o =>
      cases o with
      | openBracket => rw [h rfl]
      | _ => rfl
    | _ => rfl

/-- Whether a member is embedded depends on the brackets only if they
follow its name. -/
theorem embedsAfterName_congr {a b : Bool} {next : Option Tok}
    (h : next = some (.op .openBracket) → a = b) :
    embedsAfterName a next = embedsAfterName b next := by
  cases next with
  | none => rfl
  | some tok =>
    cases tok with
    | op o =>
      cases o with
      | openBracket => rw [h rfl]
      | _ => rfl
    | _ => rfl

theorem EntryShape.ofTokens_congr {a b : Bool} {first second : Option Tok}
    (h : second = some (.op .openBracket) → a = b) :
    ofTokens a first second = ofTokens b first second := by
  cases first with
  | none => rfl
  | some tok =>
    cases tok with
    | ident name => exact afterName_congr h
    | _ => rfl

theorem embeds?_congr {a b : Bool} {first second : Option Tok}
    (h : second = some (.op .openBracket) → a = b) :
    embeds? a first second = embeds? b first second := by
  cases first with
  | none => rfl
  | some tok =>
    cases tok with
    | ident name => exact congrArg some (embedsAfterName_congr h)
    | op o => cases o <;> rfl
    | _ => rfl

end GoInventory
