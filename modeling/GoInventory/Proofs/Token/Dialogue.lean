import GoInventory.Proofs.Token.Respelling
import Mathlib.Data.List.DropRight

/-!
# A lexer in use

A lexer can be asked for the next token, and for the diagnostics it has found
since they were last taken. The two may be mixed in any order (`Dialogue`). The
tokens that are handed out do not depend on the order: they are those of the
whole source, one after the other, and then none. Nor are diagnostics lost or
handed out twice: everything taken so far and everything still held back are
together the diagnostics of the tokens handed out, in order. This is what a step
keeps (`Dialogue.Follows.step`), so it holds after every run
(`Dialogue.follows_run`).

A reading has a diagnostic exactly if its token is an error, and in the same
place, so the diagnostics tell of the error tokens one by one
(`reports_of_readings`).
-/

namespace GoInventory

/-! ## Diagnostics and error tokens -/

/-- What can be read from lexemes: a semicolon, a token that is no error, or an
error with its fault. -/
theorem mem_readings {ls : List Lexeme} :
    ∀ {canEnd : Bool} {offset : Nat}, ∀ r ∈ readings canEnd offset ls,
      (r.token.tok ≠ .error ∧ r.fault? = none) ∨ ∃ fault, r.token.tok = .error ∧
        r.fault? = some fault := by
  induction ls with
  | nil =>
    intro canEnd offset r hr
    cases canEnd with
    | false => cases hr
    | true =>
      rw [List.mem_singleton.mp hr]
      exact Or.inl ⟨nofun, rfl⟩
  | cons l ls ih =>
    intro canEnd offset r hr
    rw [readings_cons] at hr
    rcases List.mem_append.mp hr with hr | hr
    · rw [Option.mem_toList] at hr
      cases heff : l.effect canEnd offset with
      | pass =>
        rw [heff] at hr
        cases hr
      | semicolon place =>
        rw [heff] at hr
        cases hr
        exact Or.inl ⟨nofun, rfl⟩
      | token tok =>
        rw [heff] at hr
        cases hr
        refine Or.inl ⟨fun herror => ?_, rfl⟩
        exact absurd (herror ▸ Lexeme.tok?_of_effect heff) (Lexeme.tok?_ne_error l)
      | fault fault =>
        rw [heff] at hr
        cases hr
        exact Or.inr ⟨fault, rfl, rfl⟩
    · exact ih r hr

/-- One lexical diagnostic for each error token, in order and in the same place. -/
def Reports (tokens : List Token) (ds : List Diagnostic) : Prop :=
  ds.map (fun d => (d.stage, d.span))
    = (tokens.filter (·.tok == .error)).map
      fun t => (Stage.lexical, Span.mk t.start t.stop)

/-- The diagnostics of readings report their error tokens, where no
offset is cut. -/
theorem reports_of_readings {rs : List Reading}
    (h : ∀ r ∈ rs, (r.token.tok ≠ .error ∧ r.fault? = none) ∨
      ∃ fault, r.token.tok = .error ∧ r.fault? = some fault)
    (hplaced : ∀ r ∈ rs, r.token.start ≤ Span.maxOffset ∧
      r.token.stop ≤ Span.maxOffset) :
    Reports (rs.map (·.token)) (rs.filterMap (·.diagnostic?)) := by
  unfold Reports
  induction rs with
  | nil => rfl
  | cons r rs ih =>
    obtain ⟨hr, hrs⟩ := List.forall_mem_cons.mp h
    obtain ⟨⟨hstart, hstop⟩, hplaced⟩ := List.forall_mem_cons.mp hplaced
    have hspan : r.token.span = ⟨r.token.start, r.token.stop⟩ := by
      unfold Token.span Span.clamp
      rw [Nat.min_eq_left hstart, Nat.min_eq_left hstop]
    rcases hr with ⟨hne, hfault⟩ | ⟨fault, herror, hfault⟩
    · have hnone : r.diagnostic? = none := by
        unfold Reading.diagnostic?
        rw [hfault]
        rfl
      rw [List.filterMap_cons_none hnone, List.map_cons,
        List.filter_cons_of_neg (by simpa using hne)]
      exact ih hrs hplaced
    · have hsome : r.diagnostic? = some (.ofLexFault fault r.token.span) := by
        unfold Reading.diagnostic?
        rw [hfault]
        rfl
      rw [List.filterMap_cons_some hsome, List.map_cons, List.map_cons,
        List.filter_cons_of_pos (by simpa using herror), List.map_cons,
          ih hrs hplaced, hspan]
      rfl

/-! ## One token at a time -/

namespace Lexer

/-- What is still to be read. -/
def remaining (lexer : Lexer) : List Reading :=
  readings lexer.canEnd lexer.offset lexer.ahead

/-- The next token is that of the next reading, whose diagnostic is kept. -/
theorem nextFrom_eq (found : List Diagnostic) (ls : List Lexeme) :
    ∀ canEnd offset, match readings canEnd offset ls with
      | [] => nextFrom found canEnd offset ls = none
      | r :: rs => ∃ after, nextFrom found canEnd offset ls = some (r.token, after) ∧
        after.remaining = rs ∧ after.found = found ++ r.diagnostic?.toList := by
  induction ls with
  | nil =>
    intro canEnd offset
    cases canEnd with
    | false => rfl
    | true => exact ⟨_, rfl, rfl, (List.append_nil _).symm⟩
  | cons l ls ih =>
    intro canEnd offset
    rw [readings, nextFrom]
    cases l.effect canEnd offset with
    | pass => exact ih canEnd _
    | semicolon place => exact ⟨_, rfl, rfl, (List.append_nil _).symm⟩
    | token tok => exact ⟨_, rfl, rfl, (List.append_nil _).symm⟩
    | fault fault => exact ⟨_, rfl, rfl, rfl⟩

theorem next?_of_nil {lexer : Lexer} (h : lexer.remaining = []) :
    lexer.next? = none := by
  have hnext := nextFrom_eq lexer.found lexer.ahead lexer.canEnd lexer.offset
  rw [show readings lexer.canEnd lexer.offset lexer.ahead = [] from h] at hnext
  exact hnext

theorem next?_of_cons {lexer : Lexer} {r : Reading} {rs : List Reading}
    (h : lexer.remaining = r :: rs) :
    ∃ after, lexer.next? = some (r.token, after) ∧ after.remaining = rs ∧
      after.found = lexer.found ++ r.diagnostic?.toList := by
  have hnext := nextFrom_eq lexer.found lexer.ahead lexer.canEnd lexer.offset
  rw [show readings lexer.canEnd lexer.offset lexer.ahead = r :: rs from h] at hnext
  exact hnext

/-- The two things that a lexer can be asked for. -/
inductive Call where
  | next
  | take
deriving DecidableEq, Repr

end Lexer

/-! ## Calls in any order -/

open Lexer (Call)

/-- A lexer in use, with what it has answered so far: a token for each call that
asked for one, or none, and the diagnostics that were taken. -/
structure Dialogue where
  lexer : Lexer
  returned : List (Option Token)
  taken : List Diagnostic

namespace Dialogue

/-- One call. At the end of the source the lexer stays as it is. -/
def step (d : Dialogue) : Call → Dialogue
  | .next =>
    match d.lexer.next? with
    | none => { d with returned := d.returned ++ [none] }
    | some (t, after) => { d with lexer := after, returned := d.returned ++ [some t] }
  | .take =>
    { d with
      lexer := d.lexer.takeDiagnostics.2
      taken := d.taken ++ d.lexer.takeDiagnostics.1 }

/-- The calls one after the other, from the start of a source. -/
def run (source : String) (calls : List Call) : Dialogue :=
  calls.foldl step ⟨.ofSource source, [], []⟩

/-- How many tokens were asked for before diagnostics were taken for
the last time. -/
def settled (calls : List Call) : Nat :=
  (calls.rdropWhile (· != .take)).count .next

/-- The answers to the calls are those that the readings of the source call for. -/
structure Follows (all : List Reading) (calls : List Call) (d : Dialogue) : Prop where
  ahead : d.lexer.remaining = all.drop (calls.count .next)
  returned : d.returned = (List.range (calls.count .next)).map
    fun i => (all.map (·.token))[i]?
  found : d.taken ++ d.lexer.found
    = (all.take (calls.count .next)).filterMap (·.diagnostic?)
  taken : d.taken = (all.take (settled calls)).filterMap (·.diagnostic?)

theorem settled_next (calls : List Call) :
    settled (calls ++ [.next]) = settled calls := by
  unfold settled
  rw [List.rdropWhile_concat_pos _ _ _ rfl]

theorem settled_take (calls : List Call) :
    settled (calls ++ [.take]) = calls.count .next := by
  unfold settled
  rw [List.rdropWhile_concat_neg _ _ _ (by decide), List.count_append]
  rfl

theorem count_next (calls : List Call) :
    (calls ++ [Call.next]).count .next = calls.count .next + 1 := by
  rw [List.count_append]
  rfl

theorem count_take (calls : List Call) :
    (calls ++ [Call.take]).count .next = calls.count .next := by
  rw [List.count_append]
  rfl

section Steps

variable {all : List Reading} {calls : List Call} {d : Dialogue}

/-- Taking diagnostics hands out what was held back. -/
theorem Follows.step_take (h : d.Follows all calls) :
    (d.step .take).Follows all (calls ++ [.take]) := by
  refine ⟨?_, ?_, ?_, ?_⟩
  · rw [count_take]
    exact h.ahead
  · rw [count_take]
    exact h.returned
  · rw [count_take]
    exact (List.append_nil _).trans h.found
  · rw [settled_take]
    exact h.found

/-- One answer more, if it is the next token. -/
theorem Follows.returned_concat (h : d.Follows all calls) {t? : Option Token}
    (ht : (all.map (·.token))[calls.count .next]? = t?) :
    d.returned ++ [t?] = (List.range (calls.count .next + 1)).map
      fun i => (all.map (·.token))[i]? := by
  rw [List.range_succ, List.map_append, ← h.returned, List.map_singleton, ht]

/-- At the end of the source there is no token, and nothing changes. -/
theorem Follows.step_end (h : d.Follows all calls)
    (hrest : all.drop (calls.count .next) = []) :
    (d.step .next).Follows all (calls ++ [.next]) := by
  have hend : all.length ≤ calls.count .next := List.drop_eq_nil_iff.mp hrest
  unfold Dialogue.step
  rw [Lexer.next?_of_nil (h.ahead.trans hrest)]
  refine ⟨?_, ?_, ?_, ?_⟩
  · rw [count_next, List.drop_eq_nil_of_le (Nat.le_succ_of_le hend)]
    exact h.ahead.trans hrest
  · rw [count_next]
    exact h.returned_concat (by simpa using hend)
  · rw [count_next, List.take_of_length_le (Nat.le_succ_of_le hend),
      ← List.take_of_length_le hend]
    exact h.found
  · rw [settled_next]
    exact h.taken

/-- The next reading is handed out, and its diagnostic is held back. -/
theorem Follows.step_reading {r : Reading} {rs : List Reading}
    (h : d.Follows all calls) (hrest : all.drop (calls.count .next) = r :: rs) :
    (d.step .next).Follows all (calls ++ [.next]) := by
  have hget : all[calls.count .next]? = some r := by
    rw [← List.head?_drop, hrest]
    rfl
  have htake : all.take (calls.count .next + 1)
      = all.take (calls.count .next) ++ [r] := by
    rw [List.take_add_one, hget]
    rfl
  obtain ⟨after, hnext, hremaining, hfound⟩ :=
    Lexer.next?_of_cons (h.ahead.trans hrest)
  unfold Dialogue.step
  rw [hnext]
  refine ⟨?_, ?_, ?_, ?_⟩
  · rw [count_next, ← List.tail_drop, hrest]
    exact hremaining
  · rw [count_next]
    exact h.returned_concat (by rw [List.getElem?_map, hget]; rfl)
  · rw [count_next, htake, List.filterMap_append, ← h.found, List.append_assoc]
    show d.taken ++ after.found = _
    rw [hfound]
    cases hd : r.diagnostic? <;> simp [hd]
  · rw [settled_next]
    exact h.taken

/-- **What one call keeps.** -/
theorem Follows.step (h : d.Follows all calls) (call : Call) :
    (d.step call).Follows all (calls ++ [call]) := by
  cases call with
  | take => exact h.step_take
  | next =>
    cases hrest : all.drop (calls.count .next) with
    | nil => exact h.step_end hrest
    | cons r rs => exact h.step_reading hrest

end Steps

/-- **What every run keeps**, whatever the order of the calls is. -/
theorem follows_run (source : String) (calls : List Call) :
    (run source calls).Follows (readings false 0 (Lexeme.cut source.toList))
      calls := by
  induction calls using List.reverseRecOn with
  | nil => exact ⟨rfl, rfl, rfl, rfl⟩
  | append_singleton calls call ih =>
    unfold run at ih ⊢
    rw [List.foldl_concat]
    exact ih.step call

end Dialogue

end GoInventory
