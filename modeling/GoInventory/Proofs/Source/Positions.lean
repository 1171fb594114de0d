import GoInventory.Listing
import GoInventory.Proofs.Syntax.Diagnostics
import GoInventory.Proofs.Text.Encoding
import Mathlib.Algebra.GroupWithZero.Nat

/-!
# Positions locate bytes

A position is found by counting the line feeds before an offset and, apart from
that, by going back from the offset to the nearest one. Here it is compared with
the lines of the text (`Position.Locates`): the line that it names exists, and
so many bytes into it, or at its end, is the offset.

Both searches meet at the last line feed before the offset, where the text is
cut in two (`Text.splitOn_cut`). A position that locates an offset says
everything about it: offsets are ordered as their positions are
(`Position.Locates.lt_iff_before`). So different offsets have different
positions, and an offset has one.

When a source is refused, the position in the error is that of its first
diagnostic, whose start lies within the source (`diagnostics_within`).
-/

namespace GoInventory

namespace Text

/-! ## Splitting at a separator -/

section Splitting

variable {α : Type} [DecidableEq α] {x : α}

theorem length_splitOn (x : α) (xs : List α) :
    (xs.splitOn x).length = xs.count x + 1 := by
  induction xs with
  | nil => rfl
  | cons c xs ih =>
    rw [List.splitOn_cons_eq_if_modifyHead]
    by_cases hc : c = x
    · simp [hc, ih]
    · simp [hc, ih]

/-- The parts of a list with their separators are as long as the list and one
more separator. -/
theorem sum_splitOn (x : α) (xs : List α) :
    ((xs.splitOn x).map fun part => part.length + 1).sum = xs.length + 1 := by
  induction xs with
  | nil => rfl
  | cons c xs ih =>
    obtain ⟨part, more, hparts⟩ :=
      List.exists_cons_of_ne_nil (List.splitOn_ne_nil x xs)
    rw [List.splitOn_cons_eq_if_modifyHead]
    rw [hparts] at ih ⊢
    by_cases hc : c = x
    · simp [hc] at ih ⊢
      omega
    · simp [hc] at ih ⊢
      omega

/-- What has no separator goes with the first part. -/
theorem splitOn_append_of_not_mem {xs : List α} (h : x ∉ xs) (ys : List α) :
    (xs ++ ys).splitOn x = (ys.splitOn x).modifyHead (xs ++ ·) := by
  induction xs with
  | nil =>
    rw [List.nil_append]
    cases ys.splitOn x <;> rfl
  | cons c xs ih =>
    have hc : (c == x) = false :=
      beq_false_of_ne fun heq => h (heq ▸ List.mem_cons_self)
    rw [List.cons_append, List.splitOn_cons_eq_if_modifyHead, hc, ih
      fun hmem => h (List.mem_cons_of_mem c hmem)]
    cases ys.splitOn x <;> rfl

/-- Going back from the end of a list to the nearest separator. -/
theorem exists_back (x : α) (before : List α) :
    ∃ last, (before.reverse.takeWhile (· != x)).length = last.length ∧ x ∉ last ∧
      (before = last ∨ ∃ front, before = front ++ x :: last) := by
  refine ⟨(before.reverse.takeWhile (· != x)).reverse,
    List.length_reverse.symm, ?_, ?_⟩
  · intro hmem
    simpa using List.mem_takeWhile_imp (List.mem_reverse.mp hmem)
  · have hsplit :=
      congrArg List.reverse
      (List.takeWhile_append_dropWhile (p := (· != x)) (l := before.reverse))
    rw [List.reverse_append, List.reverse_reverse] at hsplit
    have hhead := List.head?_dropWhile_not (· != x) before.reverse
    cases hfront : before.reverse.dropWhile (· != x) with
    | nil =>
      rw [hfront] at hsplit
      exact Or.inl hsplit.symm
    | cons c front =>
      rw [hfront] at hsplit hhead
      obtain rfl : c = x := by simpa using hhead
      rw [List.reverse_cons, List.append_assoc] at hsplit
      exact Or.inr ⟨front.reverse, hsplit.symm⟩

/-- Where a list is cut after `before`, counting the separators in front
gives the number of the part, and going back to the nearest one gives the
place within it. -/
theorem splitOn_cut (x : α) (before behind : List α) :
    ∃ part, ((before ++ behind).splitOn x)[before.count x]? = some part ∧
      (before.reverse.takeWhile (· != x)).length ≤ part.length ∧
      ((((before ++ behind).splitOn x).take (before.count x)).map
        fun part => part.length + 1).sum
        + (before.reverse.takeWhile (· != x)).length = before.length := by
  obtain ⟨last, hback, hlast, hbefore⟩ := exists_back x before
  rw [hback]
  -- the part that the cut goes through starts with what is before the cut
  obtain ⟨part, more, hparts⟩ :=
    List.exists_cons_of_ne_nil (List.splitOn_ne_nil x behind)
  have hthrough : (last ++ behind).splitOn x = (last ++ part) :: more := by
    rw [splitOn_append_of_not_mem hlast, hparts]
    rfl
  have hcount : last.count x = 0 := List.count_eq_zero_of_not_mem hlast
  refine ⟨last ++ part, ?_⟩
  rcases hbefore with rfl | ⟨front, rfl⟩
  · rw [hcount, hthrough]
    simp
  · have hnumber : (front ++ x :: last).count x = (front.splitOn x).length := by
      rw [length_splitOn, List.count_append, List.count_cons_self, hcount]
    rw [List.append_assoc, List.cons_append, List.splitOn_append_cons_self, hnumber,
      hthrough, List.take_left, sum_splitOn]
    refine ⟨by simp, by simp, ?_⟩
    rw [List.length_append, List.length_cons]
    omega

end Splitting

/-! ## Lines -/

/-- Splitting the bytes of a text at line feeds is splitting the text
at line feeds. -/
theorem splitOn_encode (cs : List Char) :
    (encode cs).splitOn Position.lineFeed = (cs.splitOn '\n').map encode := by
  induction cs with
  | nil => rfl
  | cons c cs ih =>
    obtain ⟨line, more, hlines⟩ :=
      List.exists_cons_of_ne_nil (List.splitOn_ne_nil '\n' cs)
    rw [List.splitOn_cons_eq_if_modifyHead, encode_cons]
    rw [hlines] at ih ⊢
    by_cases hc : c = '\n'
    · subst hc
      show List.splitOn Position.lineFeed (Position.lineFeed :: encode cs)
        = [] :: encode line :: more.map encode
      rw [List.splitOn_cons_eq_if_modifyHead, ih]
      rfl
    · have hno : Position.lineFeed ∉ String.utf8EncodeChar c := fun hmem =>
        ne_of_mem_utf8EncodeChar hmem (by decide) hc rfl
      rw [splitOn_append_of_not_mem hno, ih, if_neg (by simpa using hc)]
      simp [encode_cons]

/-- The lines of a text: it is split at each line feed. -/
def lines (source : String) : List (List Char) :=
  source.toList.splitOn '\n'

/-- Where the line with this number starts, counted from zero: behind the lines
before it and their line feeds. -/
def lineStart (source : String) (i : Nat) : Nat :=
  (((lines source).take i).map fun line => byteLength line + 1).sum

theorem lineStart_succ {source : String} {i : Nat} {line : List Char}
    (h : (lines source)[i]? = some line) :
    lineStart source (i + 1) = lineStart source i + (byteLength line + 1) := by
  unfold lineStart
  rw [List.take_add_one, h, List.map_append, List.sum_append]
  rfl

theorem lineStart_mono (source : String) {i j : Nat} (h : i ≤ j) :
    lineStart source i ≤ lineStart source j := by
  refine monotone_nat_of_le_succ (fun n => ?_) h
  unfold lineStart
  rw [List.take_add_one, List.map_append, List.sum_append]
  exact Nat.le_add_right _ _

end Text

namespace Position

/-- The position names a line of the text, and its column a place in this line
or at its end, and this is the offset. -/
def Locates (source : String) (offset : Nat) (p : Position) : Prop :=
  1 ≤ p.line ∧ 1 ≤ p.column ∧ ∃ line, (Text.lines source)[p.line - 1]? = some line ∧
    Text.lineStart source (p.line - 1) + (p.column - 1) = offset ∧
      p.column - 1 ≤ Text.byteLength line

/-- The order in which positions are read. -/
def Before (p q : Position) : Prop :=
  p.line < q.line ∨ p.line = q.line ∧ p.column < q.column

variable {source : String} {o o' : Nat} {p q : Position}

/-- An earlier line has the smaller offsets. -/
theorem Locates.lt_of_line_lt (hp : p.Locates source o) (hq : q.Locates source o')
    (h : p.line < q.line) : o < o' := by
  obtain ⟨hline, -, line, hget, rfl, hle⟩ := hp
  obtain ⟨-, -, -, -, rfl, -⟩ := hq
  have hsucc := Text.lineStart_succ hget
  rw [Nat.sub_add_cancel hline] at hsucc
  have hmono := Text.lineStart_mono source (show p.line ≤ q.line - 1 by omega)
  omega

/-- Offsets are ordered as the positions that locate them. -/
theorem Locates.lt_iff_before (hp : p.Locates source o) (hq : q.Locates source o') :
    o < o' ↔ p.Before q := by
  rcases Nat.lt_trichotomy p.line q.line with hlt | heq | hgt
  · exact iff_of_true (hp.lt_of_line_lt hq hlt) (Or.inl hlt)
  · obtain ⟨-, hcolumn, -, -, rfl, -⟩ := hp
    obtain ⟨-, hcolumn', -, -, rfl, -⟩ := hq
    rw [Before, heq]
    omega
  · have hlt := hq.lt_of_line_lt hp hgt
    unfold Before
    omega

/-- One position locates an offset. -/
theorem Locates.unique (hp : p.Locates source o) (hq : q.Locates source o) :
    p = q := by
  have hpq : ¬ p.Before q :=
    fun h => absurd ((hp.lt_iff_before hq).mpr h) (Nat.lt_irrefl o)
  have hqp : ¬ q.Before p :=
    fun h => absurd ((hq.lt_iff_before hp).mpr h) (Nat.lt_irrefl o)
  unfold Before at hpq hqp
  cases p
  cases q
  simp only [not_or, not_lt, not_and, Position.mk.injEq] at hpq hqp ⊢
  omega

/-- The position of a span locates its start, or the end of the text if it
starts behind it. -/
theorem locates_position (source : String) (s : Span) :
    (s.position source).Locates source
      (min s.start (Text.byteLength source.toList)) := by
  obtain ⟨part, hget, hle, hsum⟩ :=
    Text.splitOn_cut lineFeed ((Text.bytes source).take s.start)
    ((Text.bytes source).drop s.start)
  rw [List.take_append_drop, Text.bytes, Text.splitOn_encode] at hget hsum
  rw [List.getElem?_map, Option.map_eq_some_iff] at hget
  obtain ⟨line, hline, rfl⟩ := hget
  rw [← List.map_take, List.map_map, List.length_take, Text.length_encode] at hsum
  rw [Text.length_encode] at hle
  refine ⟨Nat.le_add_left 1 _, Nat.le_add_left 1 _, line, hline, ?_, hle⟩
  rw [← hsum]
  simp only [Function.comp_def, Text.length_encode]
  rfl

end Position

/-! ## Refused sources -/

/-- A source is refused with a diagnostic at least, and each lies
within the source. -/
theorem diagnostics_within {source : String} {failure : ParseFailure}
    (h : parseSource source = .error failure) :
    failure.diagnostics ≠ [] ∧ ∀ d ∈ failure.diagnostics,
      d.span.Within (Text.byteLength source.toList) := by
  rcases parseSource_cases source with ⟨hfound, hresult⟩
    | ⟨-, ⟨file, hresult⟩ | ⟨e, hparse, hresult⟩⟩
  · cases h.symm.trans hresult
    refine ⟨hfound, fun d hd => ?_⟩
    obtain ⟨r, hr, hdiagnostic⟩ := List.mem_filterMap.mp hd
    obtain ⟨fault, -, rfl⟩ := Option.map_eq_some_iff.mp hdiagnostic
    obtain ⟨hle, hstop⟩ := tokens_within source r.token (List.mem_map_of_mem hr)
    exact .clamp hle hstop
  · cases h.symm.trans hresult
  · cases h.symm.trans hresult
    refine ⟨List.cons_ne_nil _ _, fun d hd => ?_⟩
    rw [List.mem_singleton.mp hd]
    exact span_of_parseTokens_error (tokens_within source) hparse

/-- What positions say about a text. -/
structure Pinpoints (source : String) : Prop where
  locates : ∀ s : Span,
    (s.position source).Locates source (min s.start (Text.byteLength source.toList))
  unique : ∀ (s : Span) (p : Position),
    p.Locates source (min s.start (Text.byteLength source.toList)) →
    p = s.position source
  increasing : ∀ a b : Span, a.start ≤ Text.byteLength source.toList →
    b.start ≤ Text.byteLength source.toList →
    (a.start < b.start ↔ (a.position source).Before (b.position source))
  injective : ∀ a b : Span, a.start ≤ Text.byteLength source.toList →
    b.start ≤ Text.byteLength source.toList →
    a.position source = b.position source → a.start = b.start
  /-- The error of a refused source shows where its first diagnostic starts. -/
  refused : ∀ path error, parseText path source = .error error → ∃ failure d p,
    parseSource source = .error failure ∧ failure.first? = some d ∧
      error = .parse path p failure ∧
      p.Locates source d.span.start

/-- **A position locates its byte.** The line and the column of a span name the
one place in the lines of the text that is its start; they grow with it, and no
two offsets of the text have the same. The error of a refused source shows the
place where its first diagnostic starts. -/
theorem position_pinpoints (source : String) : Pinpoints source := by
  have hlocates := Position.locates_position source
  have hstart : ∀ {s : Span}, s.start ≤ Text.byteLength source.toList →
      (s.position source).Locates source s.start := by
    intro s hs
    have := hlocates s
    rwa [Nat.min_eq_left hs] at this
  refine ⟨hlocates, fun s p hp => hp.unique (hlocates s),
    fun a b ha hb => (hstart ha).lt_iff_before (hstart hb), ?_, ?_⟩
  · intro a b ha hb hsame
    obtain ⟨-, -, -, -, hoffset, -⟩ := hstart ha
    obtain ⟨-, -, -, -, hoffset', -⟩ := hstart hb
    rw [hsame] at hoffset
    exact hoffset.symm.trans hoffset'
  · intro path error herror
    unfold parseText at herror
    cases hparse : parseSource source with
    | ok file =>
      rw [hparse] at herror
      cases herror
    | error failure =>
      rw [hparse] at herror
      cases herror
      obtain ⟨hne, hwithin⟩ := diagnostics_within hparse
      obtain ⟨d, ds, hds⟩ := List.exists_cons_of_ne_nil hne
      have hfirst : failure.first? = some d := congrArg List.head? hds
      have hd := hwithin d (hds ▸ List.mem_cons_self)
      refine ⟨failure, d, d.span.position source, rfl, hfirst, ?_,
        hstart (hd.ordered.trans hd.stop_le)⟩
      rw [ParseFailure.position, hfirst]

end GoInventory
