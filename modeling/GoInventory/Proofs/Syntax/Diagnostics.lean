import GoInventory.Proofs.Syntax.FileBare
import GoInventory.Proofs.Token.Dialogue

/-!
# Diagnostics

Diagnostics and error tokens tell of the same faults. A lexer reports each error
token that it has handed out, once and in its place, whenever it is asked
(`Dialogue.Answers`). So a source with an error token is refused with exactly
these reports, and the parser is not asked. Any other source is accepted, or it
is refused with the one fault that stopped the parser (`Reported`). All reports
lie within the source.
-/

namespace GoInventory

/-! ## Reports -/

section Reports

variable {tokens : List Token} {ds : List Diagnostic}

/-- A report is lexical and stands where an error token stands. -/
theorem Reports.exists_token (h : Reports tokens ds) {d : Diagnostic} (hd : d ∈ ds) :
    ∃ t ∈ tokens, t.tok = .error ∧ d.stage = .lexical ∧
      d.span = ⟨t.start, t.stop⟩ := by
  have hmem : (d.stage, d.span) ∈ ds.map fun d => (d.stage, d.span) :=
    List.mem_map_of_mem hd
  rw [show ds.map (fun d => (d.stage, d.span)) = _ from h] at hmem
  obtain ⟨t, ht, heq⟩ := List.mem_map.mp hmem
  obtain ⟨ht, herror⟩ := List.mem_filter.mp ht
  obtain ⟨hstage, hspan⟩ := Prod.mk.inj heq
  exact ⟨t, ht, eq_of_beq herror, hstage.symm, hspan.symm⟩

theorem Reports.within (h : Reports tokens ds) {n : Nat}
    (hwithin : ∀ t ∈ tokens, t.start ≤ t.stop ∧ t.stop ≤ n) :
    ∀ d ∈ ds, d.span.Within n := by
  intro d hd
  obtain ⟨t, ht, -, -, hspan⟩ := h.exists_token hd
  rw [hspan]
  exact ⟨(hwithin t ht).1, (hwithin t ht).2⟩

/-- There is nothing to report exactly if no token is an error. -/
theorem Reports.eq_nil_iff (h : Reports tokens ds) :
    ds = [] ↔ ∀ t ∈ tokens, t.tok ≠ .error := by
  have hlength : ds.length = (tokens.filter (·.tok == .error)).length := by
    simpa only [List.length_map] using congrArg List.length h
  rw [← List.length_eq_zero_iff, hlength, List.length_eq_zero_iff,
    List.filter_eq_nil_iff]
  simp only [beq_iff_eq, ne_eq]

end Reports

/-- The first readings of a source report their error tokens. -/
theorem reports_take {source : String}
    (h : Text.byteLength source.toList ≤ Span.maxOffset) (k : Nat) :
    Reports ((tokenize source).tokens.take k)
      (((readings false 0 (Lexeme.cut source.toList)).take k).filterMap
        (·.diagnostic?)) := by
  have htake : (tokenize source).tokens.take k
      = ((readings false 0 (Lexeme.cut source.toList)).take k).map (·.token) :=
        List.map_take.symm
  rw [htake]
  refine reports_of_readings (fun r hr => mem_readings r (List.mem_of_mem_take hr))
    fun r hr => ?_
  obtain ⟨hle, hstop⟩ :=
    tokens_within source r.token (List.mem_map_of_mem (List.mem_of_mem_take hr))
  exact ⟨by omega, by omega⟩

theorem reports_tokenize {source : String}
    (h : Text.byteLength source.toList ≤ Span.maxOffset) :
    Reports (tokenize source).tokens (tokenize source).diagnostics := by
  have hall := reports_take h (readings false 0 (Lexeme.cut source.toList)).length
  rw [List.take_length, List.take_of_length_le (by simp [tokenize])] at hall
  exact hall

/-! ## A lexer in use -/

/-- What a lexer has answered to calls in any order: the tokens of the source
one after the other, and none once there are no more; and, over all takes, one
report for each error token handed out before the last take. -/
structure Dialogue.Answers (source : String) (calls : List Lexer.Call)
  (d : Dialogue) : Prop where
  returned : d.returned = (List.range (calls.count .next)).map
    fun i => (tokenize source).tokens[i]?
  ended : ∀ i j, i ≤ j → j < d.returned.length → d.returned[i]? = some none →
    d.returned[j]? = some none
  taken : Reports ((tokenize source).tokens.take (Dialogue.settled calls)) d.taken
  within : ∀ x ∈ d.taken, x.span.Within (Text.byteLength source.toList)

theorem Dialogue.answers_run {source : String}
    (h : Text.byteLength source.toList ≤ Span.maxOffset) (calls : List Lexer.Call) :
    (run source calls).Answers source calls := by
  have hrun := follows_run source calls
  have hreturned : (run source calls).returned = _ := hrun.returned
  have htaken : Reports ((tokenize source).tokens.take (settled calls))
      (run source calls).taken := by
    rw [hrun.taken]
    exact reports_take h _
  refine ⟨hreturned, fun i j hij hj hnone => ?_, htaken, ?_⟩
  · rw [hreturned, List.length_map, List.length_range] at hj
    rw [hreturned, List.getElem?_map, List.getElem?_range (by omega)] at hnone ⊢
    have hend := List.getElem?_eq_none_iff.mp (Option.some.inj hnone)
    exact congrArg some (List.getElem?_eq_none_iff.mpr (Nat.le_trans hend hij))
  · exact htaken.within fun t ht => tokens_within source t (List.mem_of_mem_take ht)

/-! ## A source as a whole -/

/-- What is reported of a source, when reading it has ended so. -/
structure Reported (source : String) (result : Except ParseFailure SourceFile) :
  Prop where
  lexical : Reports (tokenize source).tokens (tokenize source).diagnostics
  refused_iff : result = .error ⟨(tokenize source).diagnostics⟩ ↔
    ∃ t ∈ (tokenize source).tokens, t.tok = .error
  otherwise : (∀ t ∈ (tokenize source).tokens, t.tok ≠ .error) →
    (∃ file, result = .ok file) ∨ ∃ d, d.stage = .syntactic ∧ result = .error ⟨[d]⟩
  within : ∀ failure, result = .error failure →
    ∀ d ∈ failure.diagnostics, d.span.Within (Text.byteLength source.toList)

/-- The ways in which reading a source can end. -/
theorem parseSource_cases (source : String) :
    ((tokenize source).diagnostics ≠ [] ∧
      parseSource source = .error ⟨(tokenize source).diagnostics⟩) ∨
    (tokenize source).diagnostics = [] ∧
      ((∃ file, parseSource source = .ok file) ∨
        ∃ e, parseTokens (tokenize source).tokens (Text.byteLength source.toList)
          = .error e ∧
          parseSource source = .error ⟨[e.diagnostic]⟩) := by
  unfold parseSource
  dsimp only
  cases hfound : (tokenize source).diagnostics with
  | cons d ds => exact Or.inl ⟨nofun, rfl⟩
  | nil =>
    refine Or.inr ⟨rfl, ?_⟩
    rw [List.isEmpty_nil, if_pos rfl]
    cases hparse : parseTokens (tokenize source).tokens
      (Text.byteLength source.toList) with
    | ok file => exact Or.inl ⟨file, rfl⟩
    | error e => exact Or.inr ⟨e, rfl, rfl⟩

theorem reported_parseSource {source : String}
    (h : Text.byteLength source.toList ≤ Span.maxOffset) :
    Reported source (parseSource source) := by
  have hlexical := reports_tokenize h
  rcases parseSource_cases source with ⟨hfound, hresult⟩ | ⟨hquiet, hresult⟩
  · have herror : ∃ t ∈ (tokenize source).tokens, t.tok = .error := by
      simpa only [hlexical.eq_nil_iff, ne_eq, not_forall, not_not,
        exists_prop] using hfound
    refine ⟨hlexical, iff_of_true hresult herror, fun hnone => ?_,
      fun failure hfailure => ?_⟩
    · exact absurd (hlexical.eq_nil_iff.mpr hnone) hfound
    · rw [hresult] at hfailure
      cases hfailure
      exact hlexical.within (tokens_within source)
  · have hnone : ¬ ∃ t ∈ (tokenize source).tokens, t.tok = .error := by
      rintro ⟨t, ht, herror⟩
      exact hlexical.eq_nil_iff.mp hquiet t ht herror
    rcases hresult with ⟨file, hok⟩ | ⟨e, hparse, herror⟩
    · rw [hok]
      exact ⟨hlexical, iff_of_false nofun hnone, fun _ => Or.inl ⟨file, rfl⟩, nofun⟩
    · have hsingle : parseSource source ≠ .error ⟨(tokenize source).diagnostics⟩ := by
        rw [herror, hquiet]
        nofun
      refine ⟨hlexical, iff_of_false hsingle hnone,
        fun _ => Or.inr ⟨e.diagnostic, rfl, herror⟩,
        fun failure hfailure d hd => ?_⟩
      rw [herror] at hfailure
      cases hfailure
      rw [List.mem_singleton.mp hd]
      exact span_of_parseTokens_error (tokens_within source) hparse

/-- **Diagnostics and error tokens correspond.** Whatever is asked of a lexer in
whatever order, it reports each error token once; and a source is refused with
these reports exactly if there are any. -/
theorem diagnostics_correspond {source : String}
    (h : Text.byteLength source.toList ≤ Span.maxOffset) :
    (∀ calls, (Dialogue.run source calls).Answers source calls) ∧
      Reported source (parseSource source) :=
  ⟨Dialogue.answers_run h, reported_parseSource h⟩

/-- A source with three faults between tokens. -/
def sampleFaults : String :=
  "package p\n$ x 0b9 'ab\n"

/-- Diagnostics are taken between tokens and twice in a row, and tokens are
asked for behind the end. One fault has been handed out before the last take,
and two after it. -/
def sampleCalls : List Lexer.Call :=
  [.take, .next, .next, .take, .next, .next, .next, .take, .take, .next,
    .next, .next, .next]

theorem diagnostics_correspond_sampleFaults :
    Text.byteLength sampleFaults.toList ≤ Span.maxOffset ∧
    (Dialogue.run sampleFaults sampleCalls).Answers sampleFaults sampleCalls ∧
    Reported sampleFaults (parseSource sampleFaults) ∧
    (Dialogue.run sampleFaults sampleCalls).taken.length = 1 ∧
      (tokenize sampleFaults).diagnostics.length = 3 := by
  have hlength : Text.byteLength sampleFaults.toList ≤ Span.maxOffset := by
    decide +kernel
  obtain ⟨hcalls, hreported⟩ := diagnostics_correspond hlength
  exact ⟨hlength, hcalls sampleCalls, hreported, by decide +kernel, by decide +kernel⟩

end GoInventory
