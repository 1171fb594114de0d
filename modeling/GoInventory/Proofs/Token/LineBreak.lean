import GoInventory.Proofs.Syntax.Offsets
import GoInventory.Proofs.Token.Order

/-!
# Reading at a line break

A line feed that stands behind a source without faults ends whatever the source
ends with: a token, blanks or a line comment, and with a carriage return before
it, it makes one line break. So the lexemes of the two parts of a text are cut
apart there, and the reader stands behind the line feed as at the start of a
source (`readings_cut_lineBreak`). The semicolon that the first part gets at its
end is the one that the line feed gives it, at the same place.

Reading does not depend on the offset, but for the byte order mark, which is
none behind the start (`readings_add`). So the second part is read as on its
own, with all offsets moved (`tokenize_lineBreak`).
-/

namespace GoInventory

/-- The token with its offsets mapped. -/
def Token.mapOffsets (g : Nat → Nat) (t : Token) : Token :=
  ⟨g t.start, t.tok, g t.stop⟩

/-- The reading with its offsets mapped. -/
def Reading.mapOffsets (g : Nat → Nat) (r : Reading) : Reading :=
  ⟨r.token.mapOffsets g, r.fault?⟩

/-- The diagnostic with its offsets mapped. -/
def Diagnostic.mapOffsets (g : Nat → Nat) (d : Diagnostic) : Diagnostic :=
  ⟨d.stage, d.span.mapOffsets g, d.message⟩

namespace Lexeme

/-! ## Moving -/

/-- The effect with its offset mapped. -/
def Effect.mapOffsets (g : Nat → Nat) : Effect → Effect
  | .semicolon place => .semicolon (g place)
  | .pass => .pass
  | .token tok => .token tok
  | .fault found => .fault found

theorem Effect.reading?_mapOffsets (g : Nat → Nat) (e : Effect) (start stop : Nat) :
    (e.mapOffsets g).reading? (g start) (g stop)
      = (e.reading? start stop).map (Reading.mapOffsets g) := by
  cases e <;> rfl

theorem Effect.canEnd_mapOffsets (g : Nat → Nat) (e : Effect) (before : Bool) :
    (e.mapOffsets g).canEnd before = e.canEnd before := by
  cases e <;> rfl

/-- The effect of a lexeme moves with it, unless it is a byte order mark
at the start. -/
theorem effect_add {l : Lexeme} {offset : Nat}
    (h : l.cls = .byteOrderMark → 0 < offset) (canEnd : Bool) (k : Nat) :
    l.effect canEnd (offset + k) = (l.effect canEnd offset).mapOffsets (· + k) := by
  unfold effect
  cases hcls : l.cls with
  | byteOrderMark =>
    have hpos := h hcls
    dsimp only
    rw [if_neg (by simp; omega), if_neg (by simp; omega)]
    rfl
  | lineBreak | blockComment =>
    dsimp only
    cases canEnd with
    | false => rfl
    | true =>
      cases l.lineEnd? with
      | none => rfl
      | some n => simp only [Effect.mapOffsets, Nat.add_right_comm]
  | _ => rfl

end Lexeme

/-- Lexemes are read in the same way at every offset, if no byte order mark
opens the source there. -/
theorem readings_add {source : List Char} (k : Nat) :
    ∀ (ls : List Lexeme) (canEnd : Bool) (offset : Nat),
      (∀ l ∈ ls, l ∈ Lexeme.cut source) →
      (∀ l ∈ ls.head?, l.cls = .byteOrderMark → 0 < offset) →
      readings canEnd (offset + k) ls
        = (readings canEnd offset ls).map (Reading.mapOffsets (· + k)) := by
  intro ls
  induction ls with
  | nil =>
    intro canEnd offset _ _
    cases canEnd <;> rfl
  | cons l ls ih =>
    intro canEnd offset hmem hmark
    have hpos : 0 < offset + l.byteLength := by
      have := Lexeme.byteLength_pos (hmem l List.mem_cons_self)
      omega
    rw [readings_cons, readings_cons, List.map_append,
      Lexeme.effect_add (hmark l rfl),
      Nat.add_right_comm, Lexeme.Effect.reading?_mapOffsets (· + k),
        Lexeme.Effect.canEnd_mapOffsets,
      ih _ _ (fun m hm => hmem m (List.mem_cons_of_mem l hm)) fun _ _ _ => hpos]
    cases (l.effect canEnd offset).reading? offset (offset + l.byteLength) <;> rfl

namespace Lexeme

/-! ## Cutting at a line feed -/

theorem commentLength?_append (more : List Char) {text : List Char} :
    ∀ {n : Nat}, commentLength? text = some n →
      commentLength? (text ++ more) = some n := by
  fun_induction commentLength? text with
  | case1 rest =>
    intro n h
    exact h
  | case2 c rest hopen ih =>
    intro n h
    obtain ⟨m, hm, rfl⟩ := Option.map_eq_some_iff.mp h
    rw [List.cons_append, commentLength?, ih hm]
    · rfl
    · intro behind hc hbehind
      cases rest with
      | nil => cases hm
      | cons d rest => exact hopen rest hc (by rw [(List.cons.inj hbehind).1])
  | case3 => intro n h; cases h

/-- A lexeme without a fault stays the first one of a text if a line
feed follows the text. Only a carriage return at the end takes the line
feed with it. -/
theorem cutFirst_append_lineFeed {c : Char} {rest : List Char} {cls : LexemeClass}
    {n : Nat} (h : cutFirst c rest = (cls, n)) (hfault : ∀ fault, cls ≠ .fault fault)
    (hreturn : c = '\r' → rest ≠ []) (more : List Char) :
    cutFirst c (rest ++ '\n' :: more) = (cls, n) := by
  have hle : n ≤ rest.length := by
    have := cutFirst_le c rest
    rwa [h] at this
  have hwhile : ∀ p : Char → Bool, p '\n' = false → ∀ text : List Char,
      (text ++ '\n' :: more).takeWhile p = text.takeWhile p := by
    intro p hp text
    have hcut : (text.take text.length ++ '\n' :: more).takeWhile p
        = text.takeWhile p :=
      takeWhile_take_append (by simpa using hp) (List.takeWhile_prefix p).length_le
    rwa [List.take_length] at hcut
  by_cases htok : cls.isToken = true
  · have hcut := cutFirst_take_append h htok hle (.cons separates_lineFeed more)
    rwa [List.take_length] at hcut
  have htrivia : cls.isTrivia = true := by
    cases cls with
    | fault fault => exact absurd rfl (hfault fault)
    | ident | literal | keyword | op => exact absurd rfl htok
    | _ => rfl
  cases triviaCut_of_cutFirst h htrivia with
  | blank hblank =>
    rw [← hwhile isBlank rfl]
    exact (TriviaCut.blank hblank).cutFirst_eq
  | lineFeed => exact TriviaCut.lineFeed.cutFirst_eq
  | carriageReturn =>
    obtain ⟨d, rest, rfl⟩ := List.exists_cons_of_ne_nil (hreturn rfl)
    exact TriviaCut.carriageReturn.cutFirst_eq
  | byteOrderMark => exact TriviaCut.byteOrderMark.cutFirst_eq
  | @lineComment rest =>
    rw [← hwhile (!isLineEnd ·) rfl]
    exact TriviaCut.lineComment.cutFirst_eq
  | blockComment hlength =>
    exact (TriviaCut.blockComment (commentLength?_append _ hlength)).cutFirst_eq

/-- Only a text that starts with the character is cut into a byte
order mark first. -/
theorem head?_of_byteOrderMark {source : List Char} {l : Lexeme}
    (h : l ∈ (cut source).head?) (hcls : l.cls = .byteOrderMark) :
    source.head? = some '\uFEFF' := by
  fun_cases cut source with
  | case1 =>
    rw [cut] at h
    cases h
  | case2 c rest cls n hcut =>
    rw [cut, hcut] at h
    cases h
    cases triviaCut_of_cutFirst hcut
      (by rw [show cls = .byteOrderMark from hcls]; rfl) with
    | byteOrderMark => rfl
    | _ => cases hcls

end Lexeme

/-- A diagnostic moves with its reading, as long as its span is not cut. -/
theorem Reading.diagnostic?_mapOffsets {r : Reading} {k : Nat}
    (hstart : r.token.start + k ≤ Span.maxOffset)
    (hstop : r.token.stop + k ≤ Span.maxOffset) :
    (r.mapOffsets (· + k)).diagnostic?
      = r.diagnostic?.map (Diagnostic.mapOffsets (· + k)) := by
  have hspan : (r.token.mapOffsets (· + k)).span = r.token.span.mapOffsets (· + k) :=
    Span.clamp_add hstart hstop
  unfold diagnostic?
  rw [Option.map_map, show (r.mapOffsets (· + k)).token = r.token.mapOffsets (· + k)
    from rfl, hspan]
  rfl

open Lexeme

/-- A text without faults and a text behind a line feed are read one after the
other. Behind the line feed no statement is left to end. -/
theorem readings_cut_lineBreak (more : List Char) {text : List Char} :
    ∀ (canEnd : Bool) (offset : Nat),
      (∀ r ∈ readings canEnd offset (cut text), r.fault? = none) →
      readings canEnd offset (cut (text ++ '\n' :: more))
        = readings canEnd offset (cut text)
          ++ readings false (offset + Text.byteLength text + 1) (cut more) := by
  fun_induction cut text with
  | case1 =>
    intro canEnd offset _
    have hbreak : cut ('\n' :: more) = ⟨.lineBreak, ['\n']⟩ :: cut more :=
      cut_cons (l := ⟨.lineBreak, ['\n']⟩) ⟨'\n', [], rfl, rfl⟩
    rw [List.nil_append, hbreak, readings_cons]
    cases canEnd <;> rfl
  | case2 c rest cls n hcut ih =>
    intro canEnd offset hquiet
    have hle : n ≤ rest.length := by
      have := cutFirst_le c rest
      rwa [hcut] at this
    by_cases hreturn : c = '\r' ∧ rest = []
    · -- the carriage return makes one line break with the line feed
      obtain ⟨rfl, rfl⟩ := hreturn
      cases hcut
      have hbreak : cut ('\r' :: '\n' :: more)
          = ⟨.lineBreak, ['\r', '\n']⟩ :: cut more :=
        cut_cons (l := ⟨.lineBreak, ['\r', '\n']⟩) ⟨'\r', ['\n'], rfl, rfl⟩
      rw [List.cons_append, List.nil_append, hbreak, List.drop_nil, cut.eq_1,
        readings_cons]
      cases canEnd <;> rfl
    · rw [readings_cons] at hquiet
      have hfault : ∀ fault, cls ≠ .fault fault := by
        rintro fault rfl
        exact absurd (hquiet _ (List.mem_append_left _ List.mem_cons_self))
          (Option.some_ne_none _)
      have hfirst :=
        cutFirst_append_lineFeed hcut hfault
        (fun hc hrest => hreturn ⟨hc, hrest⟩) more
      have hrest := ih _ _ fun r hr => hquiet r (List.mem_append_right _ hr)
      rw [List.cons_append, cut, hfirst]
      dsimp only
      rw [List.take_append_of_le_length hle, List.drop_append_of_le_length hle,
        readings_cons, hrest, readings_cons, List.append_assoc]
      have hlength : offset + Text.byteLength (c :: rest)
          = offset + Lexeme.byteLength ⟨cls, c :: rest.take n⟩
            + Text.byteLength (rest.drop n) := by
        unfold Lexeme.byteLength
        rw [Nat.add_assoc, ← Text.byteLength_append, List.cons_append,
          List.take_append_drop]
      rw [hlength]

theorem readings_joined_lines {a : String} (h : (tokenize a).diagnostics = [])
    (b : String) :
    readings false 0 (cut (a ++ "\n" ++ b).toList)
      = readings false 0 (cut a.toList)
        ++ readings false (Text.byteLength a.toList + 1) (cut b.toList) := by
  have htext : (a ++ "\n" ++ b).toList = a.toList ++ '\n' :: b.toList := by simp
  rw [htext, readings_cut_lineBreak _ false 0 (fault?_of_diagnostics h), Nat.zero_add]

/-- **Reading is compositional at line breaks.** If a source has no faults,
then with a line feed and a second source behind it, it gives its tokens, at
their places, the semicolon at its end included. Behind them stand the tokens
of the second source, moved behind the line feed, and the faults are those of
the second source. The second one must not start with a byte order mark, and no
span may be cut. -/
theorem tokenize_lineBreak {a b : String} (h : (tokenize a).diagnostics = [])
    (hmark : b.toList.head? ≠ some '\uFEFF')
    (hlength : Text.byteLength a.toList + Text.byteLength b.toList < Span.maxOffset) :
    (tokenize (a ++ "\n" ++ b)).tokens = (tokenize a).tokens
      ++ (tokenize b).tokens.map
        (Token.mapOffsets (· + (Text.byteLength a.toList + 1))) ∧
    (tokenize (a ++ "\n" ++ b)).diagnostics
      = (tokenize b).diagnostics.map
        (Diagnostic.mapOffsets (· + (Text.byteLength a.toList + 1))) := by
  have hread : readings false 0 (cut (a ++ "\n" ++ b).toList)
      = readings false 0 (cut a.toList) ++ (readings false 0 (cut b.toList)).map
        (Reading.mapOffsets (· + (Text.byteLength a.toList + 1))) := by
    have hfirst : ∀ l ∈ (cut b.toList).head?, l.cls = .byteOrderMark → 0 < 0 := by
      intro l hl hcls
      exact absurd (head?_of_byteOrderMark hl hcls) hmark
    rw [readings_joined_lines h, ← readings_add _ _ _ _ (fun _ hl => hl) hfirst,
      Nat.zero_add]
  have hquiet : (readings false 0 (cut a.toList)).filterMap (·.diagnostic?) = [] := h
  constructor
  · unfold tokenize
    dsimp only
    rw [hread, List.map_append, List.map_map, List.map_map]
    rfl
  · unfold tokenize
    dsimp only
    rw [hread, List.filterMap_append, hquiet, List.nil_append, List.filterMap_map,
      List.map_filterMap]
    refine List.filterMap_congr fun r hr => ?_
    have hplace := (Token.tokenize_placed b).1 r.token (List.mem_map_of_mem hr)
    have hstop := hplace.stop_le
    have hstart := hplace.start_le_stop
    exact Reading.diagnostic?_mapOffsets (by omega) (by omega)

/-- A statement with a comment behind it, and a line with a faulty rune. -/
theorem tokenize_lineBreak_sampleComment :
    (tokenize "return // now").diagnostics = [] ∧
      ("x '".toList).head? ≠ some '\uFEFF' ∧
    Text.byteLength "return // now".toList + Text.byteLength "x '".toList
      < Span.maxOffset ∧
    (tokenize ("return // now" ++ "\n" ++ "x '")).tokens
      = (tokenize "return // now").tokens
      ++ (tokenize "x '").tokens.map
        (Token.mapOffsets (· + (Text.byteLength "return // now".toList + 1))) ∧
    (tokenize ("return // now" ++ "\n" ++ "x '")).diagnostics
      = (tokenize "x '").diagnostics.map
      (Diagnostic.mapOffsets (· + (Text.byteLength "return // now".toList + 1))) := by
  have hquiet : (tokenize "return // now").diagnostics = [] := by decide +kernel
  have hmark : ("x '".toList).head? ≠ some '\uFEFF' := by decide +kernel
  have hlength : Text.byteLength "return // now".toList + Text.byteLength "x '".toList
      < Span.maxOffset := by decide +kernel
  exact ⟨hquiet, hmark, hlength, tokenize_lineBreak hquiet hmark hlength⟩

end GoInventory
