import GoInventory.Proofs.Syntax.Brackets

/-!
# Bracket words

A run of tokens is a bracket word if each of its brackets is closed by one of
the same kind, and what stands between the two is a bracket word again
(`BracketWord`). A balanced run need not be one: there the brackets are counted,
all kinds alike, and a parenthesis may be closed by a brace.

What is missing is that each bracket is closed by one of its kind
(`KindsMatch`), and with that a balanced run is a bracket word
(`bracketWord_iff`). The way back goes through the usual check with a stack
(`openAfter?`): a balanced run leaves the stack as it was, so a bracket is
compared with the one that the count gives to it.
-/

namespace GoInventory

/-- The bracket that closes an opening one. -/
def Tok.closer? : Tok → Option Tok
  | op .openParen => some (op .closeParen)
  | op .openBracket => some (op .closeBracket)
  | op .openBrace => some (op .closeBrace)
  | _ => none

/-- Each bracket is closed in the run by one of its kind, and the
brackets are nested. -/
inductive BracketWord : List Token → Prop
  | nil : BracketWord []
  | plain {t : Token} {rest : List Token} : t.tok.isOpening = false →
      t.tok.isClosing = false → BracketWord rest →
    BracketWord (t :: rest)
  | nested {o c : Token} {inner rest : List Token} : o.tok.closer? = some c.tok →
      BracketWord inner →
    BracketWord rest → BracketWord (o :: (inner ++ c :: rest))

/-- Brackets that the count gives to each other are of one kind. -/
def KindsMatch (run : List Token) : Prop :=
  ∀ before o inner c behind, run = before ++ o :: (inner ++ c :: behind) →
    o.tok.isOpening = true →
    Balanced inner → c.tok.isClosing = true → o.tok.closer? = some c.tok

/-- The brackets that still have to be closed after the tokens, the innermost
first; none if a bracket closes that was not opened, or is of another kind. -/
def openAfter? : List Tok → List Token → Option (List Tok)
  | stack, [] => some stack
  | stack, t :: rest =>
    match t.tok.closer? with
    | some closer => openAfter? (closer :: stack) rest
    | none =>
      if t.tok.isClosing then
        match stack with
        | [] => none
        | closer :: outer => if closer = t.tok then openAfter? outer rest else none
      else openAfter? stack rest

/-! ## Single tokens -/

theorem Tok.isOpening_of_closer? {t closer : Tok} (h : t.closer? = some closer) :
    t.isOpening = true ∧ closer.isClosing = true := by
  unfold closer? at h
  split at h <;> cases h <;> exact ⟨rfl, rfl⟩

theorem Tok.closer?_of_isOpening {t : Tok} (h : t.isOpening = true) :
    ∃ closer, t.closer? = some closer := by
  unfold isOpening at h
  split at h
  · exact ⟨_, rfl⟩
  · exact ⟨_, rfl⟩
  · exact ⟨_, rfl⟩
  · cases h

theorem Tok.closer?_eq_none {t : Tok} (h : t.isOpening = false) :
    t.closer? = none := by
  cases hc : t.closer? with
  | none => rfl
  | some closer =>
    rw [(isOpening_of_closer? hc).1] at h
    cases h

section Equations

variable {t : Token} {rest : List Token} {stack : List Tok}

theorem openAfter?_opening {closer : Tok} (h : t.tok.closer? = some closer) :
    openAfter? stack (t :: rest) = openAfter? (closer :: stack) rest := by
  cases stack <;> simp [openAfter?, h]

theorem openAfter?_closing_nil (h : t.tok.isClosing = true) :
    openAfter? [] (t :: rest) = none := by
  simp [openAfter?, Tok.closer?_eq_none (Tok.isOpening_of_isClosing h), h]

theorem openAfter?_closing_cons {closer : Tok} (h : t.tok.isClosing = true) :
    openAfter? (closer :: stack) (t :: rest)
      = if closer = t.tok then openAfter? stack rest else none := by
  simp [openAfter?, Tok.closer?_eq_none (Tok.isOpening_of_isClosing h), h]

theorem openAfter?_plain (ho : t.tok.isOpening = false) (hc : t.tok.isClosing = false) :
    openAfter? stack (t :: rest) = openAfter? stack rest := by
  cases stack <;> simp [openAfter?, Tok.closer?_eq_none ho, hc]

end Equations

/-! ## The check with a stack -/

theorem openAfter?_append (a b : List Token) :
    ∀ stack, openAfter? stack (a ++ b)
      = (openAfter? stack a).bind (openAfter? · b) := by
  induction a with
  | nil => intro stack; rfl
  | cons t a ih =>
    intro stack
    rw [List.cons_append]
    rcases t.tok.bracket_cases with ho | ⟨-, hc⟩ | ⟨ho, hc⟩
    · obtain ⟨closer, hcloser⟩ := Tok.closer?_of_isOpening ho
      rw [openAfter?_opening hcloser, openAfter?_opening hcloser]
      exact ih _
    · cases stack with
      | nil => rw [openAfter?_closing_nil hc, openAfter?_closing_nil hc]; rfl
      | cons closer outer =>
        rw [openAfter?_closing_cons hc, openAfter?_closing_cons hc]
        split
        · exact ih _
        · rfl
    · rw [openAfter?_plain ho hc, openAfter?_plain ho hc]
      exact ih _

/-- A bracket word leaves the stack as it was. -/
theorem BracketWord.openAfter? {run : List Token} (h : BracketWord run) :
    ∀ stack, GoInventory.openAfter? stack run = some stack := by
  induction h with
  | nil => intro stack; rfl
  | plain ho hc _ ih =>
    intro stack
    rw [openAfter?_plain ho hc]
    exact ih stack
  | nested hcloser _ _ ihinner ihrest =>
    intro stack
    have hc := (Tok.isOpening_of_closer? hcloser).2
    rw [openAfter?_opening hcloser, openAfter?_append, ihinner, Option.bind_some,
      openAfter?_closing_cons hc, if_pos rfl]
    exact ihrest stack

/-- The check counts. Brackets that were open before the run and are not reached
by the count stay on the stack. -/
theorem openAfter?_frame {run : List Token} {outer : List Tok} :
    ∀ {inner stack : List Tok} {depth : Nat},
      openAfter? (inner ++ outer) run = some stack →
      depthAfter? inner.length run = some depth → ∃ above, stack = above ++ outer ∧
      above.length = depth := by
  induction run with
  | nil =>
    intro inner stack depth h hdepth
    cases h
    cases hdepth
    exact ⟨inner, rfl, rfl⟩
  | cons t run ih =>
    intro inner stack depth h hdepth
    rcases t.tok.bracket_cases with ho | ⟨-, hc⟩ | ⟨ho, hc⟩
    · obtain ⟨closer, hcloser⟩ := Tok.closer?_of_isOpening ho
      rw [openAfter?_opening hcloser] at h
      rw [depthAfter?_opening ho] at hdepth
      exact ih (show openAfter? (closer :: inner ++ outer) run = some stack
        from h) hdepth
    · cases inner with
      | nil =>
        rw [List.length_nil, depthAfter?_closing_zero hc] at hdepth
        cases hdepth
      | cons closer inner =>
        rw [List.cons_append, openAfter?_closing_cons hc] at h
        rw [List.length_cons, depthAfter?_closing_succ hc] at hdepth
        split at h
        next => exact ih h hdepth
        next => cases h
    · rw [openAfter?_plain ho hc] at h
      rw [depthAfter?_plain ho hc] at hdepth
      exact ih h hdepth

theorem depthAfter?_of_openAfter? {run : List Token} :
    ∀ {stack stack' : List Tok}, openAfter? stack run = some stack' →
      depthAfter? stack.length run = some stack'.length := by
  induction run with
  | nil =>
    intro stack stack' h
    cases h
    rfl
  | cons t run ih =>
    intro stack stack' h
    rcases t.tok.bracket_cases with ho | ⟨-, hc⟩ | ⟨ho, hc⟩
    · obtain ⟨closer, hcloser⟩ := Tok.closer?_of_isOpening ho
      rw [openAfter?_opening hcloser] at h
      rw [depthAfter?_opening ho]
      exact ih h
    · cases stack with
      | nil =>
        rw [openAfter?_closing_nil hc] at h
        cases h
      | cons closer outer =>
        rw [openAfter?_closing_cons hc] at h
        rw [List.length_cons, depthAfter?_closing_succ hc]
        split at h
        next => exact ih h
        next => cases h
    · rw [openAfter?_plain ho hc] at h
      rw [depthAfter?_plain ho hc]
      exact ih h

/-- Brackets that the check lets pass match the ones that the count
gives to them. -/
theorem kindsMatch_of_openAfter? {run : List Token} {stack : List Tok}
    (h : openAfter? [] run = some stack) : KindsMatch run := by
  rintro before o inner c behind rfl ho hinner hc
  obtain ⟨closer, hcloser⟩ := Tok.closer?_of_isOpening ho
  rw [openAfter?_append] at h
  obtain ⟨opened, -, h⟩ := Option.bind_eq_some_iff.mp h
  rw [openAfter?_opening hcloser, openAfter?_append] at h
  obtain ⟨stack', hstack, h⟩ := Option.bind_eq_some_iff.mp h
  have hframe : openAfter? ([] ++ closer :: opened) inner = some stack' := hstack
  -- what is inside is balanced, so the bracket is on top of the stack again
  obtain ⟨above, rfl, habove⟩ := openAfter?_frame hframe hinner
  rw [List.length_eq_zero_iff.mp habove, List.nil_append,
    openAfter?_closing_cons hc] at h
  split at h
  next heq => rw [hcloser, heq]
  next => cases h

/-! ## Balanced runs -/

/-- If the count comes down to zero, then the bracket that was opened last but
`depth` is closed on the way. -/
theorem exists_closing {run : List Token} :
    ∀ {depth : Nat}, depthAfter? (depth + 1) run = some 0 →
      ∃ inner c behind, run = inner ++ c :: behind ∧
        depthAfter? depth inner = some 0 ∧ c.tok.isClosing = true ∧
        Balanced behind := by
  induction run with
  | nil => intro depth h; cases h
  | cons t run ih =>
    intro depth h
    rcases t.tok.bracket_cases with ho | ⟨-, hc⟩ | ⟨ho, hc⟩
    · rw [depthAfter?_opening ho] at h
      obtain ⟨inner, c, behind, rfl, hinner, hend⟩ := ih h
      exact ⟨t :: inner, c, behind,
        rfl, by rw [depthAfter?_opening ho]; exact hinner, hend⟩
    · rw [depthAfter?_closing_succ hc] at h
      cases depth with
      | zero => exact ⟨[], t, run, rfl, rfl, hc, h⟩
      | succ depth =>
        obtain ⟨inner, c, behind, rfl, hinner, hend⟩ := ih h
        exact ⟨t :: inner, c, behind,
          rfl, by rw [depthAfter?_closing_succ hc]; exact hinner, hend⟩
    · rw [depthAfter?_plain ho hc] at h
      obtain ⟨inner, c, behind, rfl, hinner, hend⟩ := ih h
      exact ⟨t :: inner, c, behind,
        rfl, by rw [depthAfter?_plain ho hc]; exact hinner, hend⟩

theorem KindsMatch.of_append {before run behind : List Token}
    (h : KindsMatch (before ++ (run ++ behind))) : KindsMatch run := by
  rintro a o inner c b rfl
  refine h (before ++ a) o inner c (b ++ behind) ?_
  simp

/-- A balanced run is a bracket word if its kinds match. -/
theorem bracketWord_of_kindsMatch {run : List Token} (hbalanced : Balanced run)
    (hkinds : KindsMatch run) : BracketWord run := by
  induction hn : run.length using Nat.strongRecOn generalizing run with
  | ind n ih =>
    cases run with
    | nil => exact .nil
    | cons t run =>
      rw [List.length_cons] at hn
      rcases t.tok.bracket_cases with ho | ⟨-, hc⟩ | ⟨ho, hc⟩
      · -- the run is cut at the bracket that the count gives to the first one,
        -- and both parts are shorter
        have hdepth : depthAfter? 1 run = some 0 := by
          rw [← depthAfter?_opening ho]
          exact hbalanced
        obtain ⟨inner, c, behind, rfl, hinner, hc, hbehind⟩ := exists_closing hdepth
        rw [List.length_append, List.length_cons] at hn
        refine .nested (hkinds [] t inner c behind rfl ho hinner hc) ?_ ?_
        · have hwithin : KindsMatch ([t] ++ (inner ++ c :: behind)) := hkinds
          exact ih inner.length (by omega) hinner hwithin.of_append rfl
        · have hrest : KindsMatch ((t :: (inner ++ [c])) ++ (behind ++ [])) := by
            simpa using hkinds
          exact ih behind.length (by omega) hbehind hrest.of_append rfl
      · unfold Balanced at hbalanced
        rw [depthAfter?_closing_zero hc] at hbalanced
        cases hbalanced
      · unfold Balanced at hbalanced
        rw [depthAfter?_plain ho hc] at hbalanced
        have hrest : KindsMatch ([t] ++ (run ++ [])) := by simpa using hkinds
        exact .plain ho hc (ih run.length (by omega) hbalanced hrest.of_append rfl)

/-- **A run is a bracket word if its brackets are counted right and
match in kind.** -/
theorem bracketWord_iff {run : List Token} :
    BracketWord run ↔ Balanced run ∧ KindsMatch run := by
  constructor
  · intro h
    have hcheck := h.openAfter? []
    exact ⟨depthAfter?_of_openAfter? hcheck, kindsMatch_of_openAfter? hcheck⟩
  · rintro ⟨hbalanced, hkinds⟩
    exact bracketWord_of_kindsMatch hbalanced hkinds

/-- Whether a run is a bracket word can be found out with a stack. -/
theorem bracketWord_iff_openAfter? {run : List Token} :
    BracketWord run ↔ openAfter? [] run = some [] := by
  constructor
  · intro h
    exact h.openAfter? []
  · intro h
    exact bracketWord_of_kindsMatch (depthAfter?_of_openAfter? h)
      (kindsMatch_of_openAfter? h)

instance (run : List Token) : Decidable (BracketWord run) :=
  decidable_of_iff _ bracketWord_iff_openAfter?.symm

end GoInventory
