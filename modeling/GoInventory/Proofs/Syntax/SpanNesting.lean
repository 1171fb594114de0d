import GoInventory.Proofs.Syntax.Accounting
import GoInventory.Proofs.Syntax.SpanTree
import Mathlib.Data.List.Chain

/-!
# Spans are well nested

Each span that a file keeps starts where a token starts and ends where a token
ends. None is empty, children lie within their parents and siblings follow each
other. Every token behind the package clause, semicolons apart, belongs to
exactly one declaration (`spans_wellNested`).

The tokens of a source follow each other, and one that has no width is a
semicolon behind a token that can end a statement (`Grammar.Solid`). Trees that
are laid out over such tokens are arranged as stated, since this is kept when
one tree is put before others (`SpanTree.Arranged.cons`).
-/

namespace GoInventory

/-! ## Tokens without width -/

/-- The second token covers some bytes, or the first one can end a statement. -/
def Token.MayPrecede (a b : Token) : Prop :=
  b.start < b.stop ∨ a.tok.canEndStatement = true

/-- A semicolon is inserted only behind a token that can end a statement. -/
theorem isChain_tokensFrom {source : List Char} :
    ∀ (ls : List Lexeme) (before : Token) (canEnd : Bool) (offset : Nat),
      (∀ l ∈ ls, l ∈ Lexeme.cut source) →
      (canEnd = true → before.tok.canEndStatement = true) →
      (before :: tokensFrom canEnd offset ls).IsChain Token.MayPrecede := by
  intro ls
  induction ls with
  | nil =>
    intro before canEnd offset _ hbefore
    cases canEnd with
    | false => exact .singleton _
    | true => exact .cons_cons (Or.inr (hbefore rfl)) (.singleton _)
  | cons l ls ih =>
    intro before canEnd offset hmem hbefore
    obtain ⟨hl, hmem⟩ := List.forall_mem_cons.mp hmem
    have hpos := Lexeme.byteLength_pos hl
    unfold tokensFrom readings
    dsimp only
    rcases Lexeme.effect_cases hl canEnd offset with
      ⟨heff, -⟩ | ⟨n, heff, hend, -⟩ | ⟨tok, heff, -⟩ | ⟨fault, heff⟩
    · rw [heff]
      exact ih before canEnd _ hmem hbefore
    · rw [heff]
      exact .cons_cons (Or.inr (hbefore hend))
        (ih _ false _ hmem fun h => absurd h Bool.false_ne_true)
    · rw [heff]
      exact .cons_cons (Or.inl (Nat.lt_add_of_pos_right hpos)) (ih _ _ _ hmem id)
    · rw [heff]
      exact .cons_cons (Or.inl (Nat.lt_add_of_pos_right hpos))
        (ih _ false _ hmem fun h => absurd h Bool.false_ne_true)

theorem Token.Origin.start_lt_stop {source : List Char} {t : Token}
    (h : t.Origin source) (ht : t.tok ≠ .op .semicolon) : t.start < t.stop := by
  cases h with
  | written _ hmem _ _ hstop _ =>
    have hpos := Lexeme.byteLength_pos hmem
    omega
  | inserted _ heq =>
    rw [heq] at ht
    exact absurd rfl ht

namespace Grammar

/-- What is needed of tokens for the spans over them: they can be found by
their offsets, and one without width is a semicolon behind a token that can
end a statement. -/
structure Solid (run : List Token) : Prop where
  locatable : Locatable run
  width : ∀ t ∈ run, t.tok ≠ .op .semicolon → t.start < t.stop
  chain : run.IsChain Token.MayPrecede

namespace Solid

theorem left {a b : List Token} (h : Solid (a ++ b)) : Solid a :=
  ⟨h.locatable.left, fun t ht => h.width t (List.mem_append_left b ht),
    h.chain.left_of_append⟩

theorem right {a b : List Token} (h : Solid (a ++ b)) : Solid b :=
  ⟨h.locatable.right, fun t ht => h.width t (List.mem_append_right a ht),
    h.chain.right_of_append⟩

theorem tail {t : Token} {run : List Token} (h : Solid (t :: run)) : Solid run :=
  right (a := [t]) h

/-- The first token of a run that opens has some width. -/
theorem head_width {run : List Token} (h : Solid run) (hopens : Opens run) :
    ∀ t ∈ run.head?, t.start < t.stop := by
  intro t ht
  obtain ⟨first, hfirst, htok⟩ := hopens
  rw [Option.mem_unique ht hfirst]
  exact h.width first (List.mem_of_mem_head? hfirst) htok

/-- So has the first token behind one that cannot end a statement. -/
theorem head_width_of_mark {mark : Token} {run : List Token} (h : Solid (mark :: run))
    (hmark : mark.tok.canEndStatement = false) :
    ∀ t ∈ run.head?, t.start < t.stop := by
  intro t ht
  rcases (List.isChain_cons.mp h.chain).1 t ht with hwidth | hend
  · exact hwidth
  · rw [hmark] at hend
    cases hend

end Solid

end Grammar

theorem solid_tokenize {source : String}
    (h : Text.byteLength source.toList ≤ Span.maxOffset) :
    Grammar.Solid (tokenize source).tokens := by
  have hchain := isChain_tokensFrom (Lexeme.cut source.toList) (.insertedSemicolon 0)
    false 0 (fun _ h => h) nofun
  refine ⟨locatable_tokenize h, fun t ht => ?_, hchain.tail⟩
  exact ((Token.tokenize_origin source).1 t ht).start_lt_stop

/-! ## Trees over tokens -/

namespace SpanTree

/-- The span is not empty, ends within the source, and starts and ends with
tokens; the children lie within it, one behind the other. -/
structure Sound (tokens : List Token) (length : Nat) (t : SpanTree) : Prop where
  nonempty : t.span.start < t.span.stop
  stop_le : t.span.stop ≤ length
  starts : ∃ u ∈ tokens, u.start = t.span.start
  stops : ∃ u ∈ tokens, u.stop = t.span.stop
  inside : ∀ c ∈ t.children, t.span.start ≤ c.span.start ∧ c.span.stop ≤ t.span.stop
  inOrder : t.children.Pairwise fun a b => a.span.stop ≤ b.span.start

/-- The trees stand one behind the other in the run, and all nodes in
them are sound. -/
structure Arranged (tokens : List Token) (length : Nat) (run : List Token)
  (trees : List SpanTree) : Prop where
  sound : ∀ root ∈ trees, ∀ t : SpanTree, t.Within root → t.Sound tokens length
  inOrder : trees.Pairwise fun a b => a.span.stop ≤ b.span.start
  ends : ∀ root ∈ trees, ∃ first ∈ run, ∃ last ∈ run, root.span
    = ⟨first.start, last.stop⟩

namespace Arranged

variable {tokens run : List Token} {length : Nat} {trees : List SpanTree}

theorem nil : Arranged tokens length run [] :=
  ⟨nofun, .nil, nofun⟩

theorem skip {t : Token} (h : Arranged tokens length run trees) :
    Arranged tokens length (t :: run) trees := by
  refine ⟨h.sound, h.inOrder, fun root hroot => ?_⟩
  obtain ⟨first, hfirst, last, hlast, hspan⟩ := h.ends root hroot
  exact ⟨first, List.mem_cons_of_mem t hfirst, last,
    List.mem_cons_of_mem t hlast, hspan⟩

/-- One tree is put before others, over tokens that stand before theirs. -/
theorem cons {tree : SpanTree} {part : List Token}
    (hlocatable : Grammar.Locatable (part ++ run)) (htokens : ∀ t ∈ part, t ∈ tokens)
    (hlength : ∀ t ∈ part, t.stop ≤ length) (hfits : tree.span.Exact part)
    (hwidth : ∀ t ∈ part.head?, t.start < t.stop)
    (hinner : Arranged tokens length part tree.children)
    (hrest : Arranged tokens length run trees) :
    Arranged tokens length (part ++ run) (tree :: trees) := by
  obtain ⟨first, last, hfirst, hlast, hmem, hmem', hspan⟩ :=
    hlocatable.left.eq_of_exact hfits
  have horder := hlocatable.inOrder.left
  have hsound : tree.Sound tokens length := by
    refine ⟨?_, ?_, ⟨first, htokens first hmem, ?_⟩, ⟨last, htokens last hmem', ?_⟩,
      fun c hc => ?_, hinner.inOrder⟩
    · have hfirst_lt := hwidth first hfirst
      have hle := horder.stop_le_getLast hlast hmem
      rw [hspan]
      exact Nat.lt_of_lt_of_le hfirst_lt hle
    · rw [hspan]
      exact hlength last hmem'
    · rw [hspan]
    · rw [hspan]
    · obtain ⟨first', hmem₁, last', hmem₂, hchild⟩ := hinner.ends c hc
      rw [hspan, hchild]
      exact ⟨horder.head_start_le hfirst hmem₁, horder.stop_le_getLast hlast hmem₂⟩
  refine ⟨fun root hroot t ht => ?_, ?_, fun root hroot => ?_⟩
  · rcases List.mem_cons.mp hroot with rfl | hroot
    · cases ht with
      | self => exact hsound
      | child hc hwithin => exact hinner.sound _ hc t hwithin
    · exact hrest.sound root hroot t ht
  · refine List.pairwise_cons.mpr ⟨fun root hroot => ?_, hrest.inOrder⟩
    obtain ⟨first', hmem₁, last', -, hroot⟩ := hrest.ends root hroot
    rw [hspan, hroot]
    exact (List.pairwise_append.mp hlocatable.inOrder.ordered).2.2 last
      hmem' first' hmem₁
  · rcases List.mem_cons.mp hroot with rfl | hroot
    · exact ⟨first, List.mem_append_left run hmem, last,
        List.mem_append_left run hmem', hspan⟩
    · obtain ⟨first', hmem₁, last', hmem₂, hroot⟩ := hrest.ends root hroot
      exact ⟨first', List.mem_append_right part hmem₁, last',
        List.mem_append_right part hmem₂, hroot⟩

end Arranged

end SpanTree

namespace Grammar

/-- **Trees that are laid out over tokens are arranged in them.** -/
theorem Laid.arranged {tokens run : List Token} {length : Nat} {trees : List SpanTree}
    (h : Laid .exact run trees) (hsolid : Solid run) (htokens : ∀ t ∈ run, t ∈ tokens)
    (hlength : ∀ t ∈ run, t.stop ≤ length) :
    SpanTree.Arranged tokens length run trees := by
  induction h with
  | nil => exact .nil
  | skip _ ih =>
    exact (ih hsolid.tail (List.forall_mem_cons.mp htokens).2
      (List.forall_mem_cons.mp hlength).2).skip
  | node hopens hfits _ _ ihinner ihrest =>
    obtain ⟨htokens, htokens'⟩ := List.forall_mem_append.mp htokens
    obtain ⟨hlength, hlength'⟩ := List.forall_mem_append.mp hlength
    exact .cons hsolid.locatable htokens hlength hfits (hsolid.left.head_width hopens)
      (ihinner hsolid.left htokens hlength) (ihrest hsolid.right htokens' hlength')
  | @region s mark part run trees hmark hskip _ ih =>
    obtain ⟨htokens, htokens'⟩ :=
      List.forall_mem_append.mp (List.forall_mem_cons.mp htokens).2
    obtain ⟨hlength, hlength'⟩ :=
      List.forall_mem_append.mp (List.forall_mem_cons.mp hlength).2
    have hwidth := (Solid.left (a := mark :: part) hsolid).head_width_of_mark hmark
    exact .skip (.cons hsolid.tail.locatable htokens hlength hskip.fits hwidth .nil
      (ih hsolid.tail.right htokens' hlength'))

/-! ## Every token belongs to a declaration -/

theorem not_covers_of_stop_le {s : Span} {t : Token} (h : s.stop ≤ t.start)
    (hwidth : t.start < t.stop) : ¬ s.Covers t := by
  intro hcovers
  have hle := hcovers.2
  omega

theorem not_covers_of_le_start {s : Span} {t : Token} (h : t.stop ≤ s.start)
    (hwidth : t.start < t.stop) : ¬ s.Covers t := by
  intro hcovers
  have hle := hcovers.1
  omega

/-- The span of a declaration reaches from its first token to its last one. -/
theorem DeclsRun.ends {ds : List Decl} {run : List Token} {d : Decl}
    (h : DeclsRun .exact ds run) (hsolid : Solid run) (hd : d ∈ ds) :
    ∃ first ∈ run, ∃ last ∈ run, d.span = ⟨first.start, last.stop⟩ := by
  have harranged := h.laid.arranged hsolid (fun _ ht => ht) hsolid.locatable.stop_le
  rw [← d.span_spanTree]
  exact harranged.ends d.spanTree (List.mem_map_of_mem hd)

theorem DeclsRun.countP_covers {ds : List Decl} {run : List Token}
    (h : DeclsRun .exact ds run) (hsolid : Solid run) :
    ∀ t ∈ run, t.tok ≠ .op .semicolon → ds.countP (fun d => d.span.Covers t) = 1 := by
  induction h with
  | nil hsemi => exact fun t ht hne => absurd (hsemi t ht) hne
  | @cons d ds before run behind more hbefore hd hbehind hds ih =>
    intro t ht hne
    have hdecl : Solid run := hsolid.left.left.right
    obtain ⟨first, last, hfirst, hlast, -, hmem, hspan⟩ :=
      hdecl.locatable.eq_of_exact hd.spanned.fits
    rw [d.span_spanTree] at hspan
    have hwidth := hsolid.width t ht hne
    have hordered := (List.pairwise_append.mp hsolid.locatable.inOrder.ordered).2.2
    rcases List.mem_append.mp ht with ht | ht
    · have ht : t ∈ run := by
        rcases List.mem_append.mp ht with ht | ht
        · rcases List.mem_append.mp ht with ht | ht
          · exact absurd (hbefore t ht) hne
          · exact ht
        · exact absurd (hbehind t ht) hne
      have hcovers : d.span.Covers t := by
        rw [hspan]
        exact ⟨hdecl.locatable.inOrder.head_start_le hfirst ht,
          hdecl.locatable.inOrder.stop_le_getLast hlast ht⟩
      -- the other declarations start behind the token
      have hothers : ds.countP (fun d => d.span.Covers t) = 0 := by
        refine List.countP_eq_zero.mpr fun d' hd' hcovers => ?_
        obtain ⟨first', hmem', last', -, hspan'⟩ := hds.ends hsolid.right hd'
        have hnext : t.stop ≤ d'.span.start := by
          rw [hspan']
          exact hordered t (by simp [ht]) first' hmem'
        exact not_covers_of_le_start hnext hwidth (of_decide_eq_true hcovers)
      rw [List.countP_cons_of_pos (by simpa using hcovers), hothers]
    · have hpast : d.span.stop ≤ t.start := by
        rw [hspan]
        exact hordered last (by simp [hmem]) t ht
      rw [List.countP_cons_of_neg (by simpa using not_covers_of_stop_le hpast hwidth)]
      exact ih hsolid.right t ht hne

end Grammar

/-! ## Sources -/

/-- How the spans of a file lie in the source that it was read from. -/
structure SourceFile.WellNested (source : String) (file : SourceFile) : Prop where
  sound : ∀ root ∈ file.spanTrees, ∀ t : SpanTree, t.Within root →
    t.Sound (tokenize source).tokens (Text.byteLength source.toList)
  inOrder : file.spanTrees.Pairwise fun a b => a.span.stop ≤ b.span.start
  covered : ∀ t ∈ (tokenize source).tokens, t.tok ≠ .op .semicolon →
    file.package.span.stop ≤ t.start →
    file.decls.countP (fun d => d.span.Covers t) = 1

/-- The tokens behind the package clause, semicolons apart, each lie in exactly
one declaration. -/
theorem Grammar.FileRun.countP_covers {file : SourceFile} {run : List Token}
    (h : FileRun .exact file run) (hsolid : Solid run) :
    ∀ t ∈ run, t.tok ≠ .op .semicolon → file.package.span.stop ≤ t.start →
      file.decls.countP (fun d => d.span.Covers t) = 1 := by
  obtain @⟨package, decls, kw, name, before, behind, run, hbefore, hkw, hname,
    hbehind, hdecls⟩ := h
  intro t ht hne hpast
  have hclause : Solid (kw :: name :: (behind ++ run)) := hsolid.right
  have hstop : package.span.stop = name.stop := by
    obtain ⟨first, last, -, -, -, hmem, hspan⟩ :=
      (Solid.left (a := [name]) hclause.tail).locatable.eq_of_exact hname.2
    rw [hspan, List.mem_singleton.mp hmem]
  have hpast : name.stop ≤ t.start := hstop ▸ hpast
  have hwidth := hsolid.width t ht hne
  -- the token is none of the semicolons, and the two tokens of the clause
  -- stand before it
  have hrun : t ∈ run := by
    rcases List.mem_append.mp ht with ht | ht
    · exact absurd (hbefore t ht) hne
    rcases List.mem_cons.mp ht with rfl | ht
    · have hnext :=
        (List.pairwise_cons.mp hclause.locatable.inOrder.ordered).1 name
        List.mem_cons_self
      have hle := hclause.locatable.inOrder.start_le_stop name (by simp)
      omega
    rcases List.mem_cons.mp ht with rfl | ht
    · omega
    rcases List.mem_append.mp ht with ht | ht
    · exact absurd (hbehind t ht) hne
    · exact ht
  exact hdecls.countP_covers hclause.tail.tail.right t hrun hne

/-- **Spans form a well-nested tree.** -/
theorem spans_wellNested {source : String} {file : SourceFile}
    (hlength : Text.byteLength source.toList ≤ Span.maxOffset)
    (h : parseSource source = .ok file) : file.WellNested source := by
  have hsolid := solid_tokenize hlength
  have hrun : Grammar.FileRun .exact file (tokenize source).tokens :=
    fileRun_of_parseTokens (parseTokens_of_parseSource h) hsolid.locatable.inOrder
  have hwithin : ∀ t ∈ (tokenize source).tokens,
      t.stop ≤ Text.byteLength source.toList := fun t ht =>
    ((Token.tokenize_placed source).1 t ht).stop_le
  have harranged := hrun.laid.arranged hsolid (fun _ ht => ht) hwithin
  exact ⟨harranged.sound, harranged.inOrder, hrun.countP_covers hsolid⟩

/-- A source with a length that ends in an inserted semicolon, a method of an
interface, parameters that share a type, and an initializer over two lines. -/
def sampleNested : String :=
  "package p\nimport . \"m\"\ntype I interface \x7b M(a, b T) ([n\n]T) \x7d\n" ++
    "func (r *T) f(x, y ...T) \x7b g() \x7d\nvar v T = h(\n1)\n"

theorem spans_wellNested_sampleNested :
    ∃ file, Text.byteLength sampleNested.toList ≤ Span.maxOffset ∧
      parseSource sampleNested = .ok file ∧
      file.WellNested sampleNested := by
  have hlength : Text.byteLength sampleNested.toList ≤ Span.maxOffset := by
    decide +kernel
  have hsome : (parseSource sampleNested).toOption.isSome = true := by decide +kernel
  cases hparse : parseSource sampleNested with
  | error e =>
    rw [hparse] at hsome
    cases hsome
  | ok file => exact ⟨file, hlength, rfl, spans_wellNested hlength hparse⟩

end GoInventory
