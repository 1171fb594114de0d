import GoInventory.Proofs.Syntax.FileSoundness
import GoInventory.Proofs.Syntax.Leaves
import GoInventory.Proofs.Token.Cutting
import GoInventory.Proofs.Token.Order

/-!
# No name or literal is lost

The identifiers and literals of a source that do not lie in a region that was
skipped are the leaves of the tree that is parsed from it: none is lost, doubled
or moved, and each leaf has the text that the source has at its span
(`leaves_of_parseSource`).

The grammar accounts for every token of the file. What is left is to tell a
token in a skipped region from the others by its offsets, which works because
the tokens of a source follow each other and the spans of the tree are exact
(`Placement.exact`).
-/

namespace GoInventory

namespace Grammar

variable {F : Placement}

/-! ## Files -/

/-- No token is an identifier that is written as a dot. -/
def NoDotName (t : Token) : Prop :=
  t.tok ≠ .ident "."

/-- The name and the path of an import are leaves. No name of an import is a
dot, as the dot is a token without text. -/
theorem ImportRun.accounted {spec : ImportSpec} {run : List Token}
    (h : ImportRun F spec run) (hdot : ∀ t ∈ run, NoDotName t) :
    Accounted F run spec.parts := by
  obtain ⟨hname, hpath⟩ := h
  refine Accounted.append ?_ hpath.accounted
  cases hname with
  | none => exact .nil
  | dot ht _ => exact .single_of_eq ht rfl
  | @name n t hn =>
    have hne : n.name ≠ "." := by
      intro heq
      refine hdot t (by simp) ?_
      rw [hn.1, heq]
    simpa [partsOf, hne] using hn.accounted

/-- A value declaration has its names, the parts of its type, and its
initializers as a region. -/
theorem ValueRun.accounted {spec : ValueSpec} {run : List Token}
    (h : ValueRun F spec run) : Accounted F run spec.parts := by
  obtain ⟨hnames, htype, hvalues⟩ := h
  refine ((names_accounted hnames).append ?_).append ?_
  · cases htype with
    | none => exact .nil
    | some ht => exact Inner.accounted Spells.accounted ht
  · cases hvalues with
    | none => exact .nil
    | some heq hskip => exact .cons_of_eq heq rfl (.region hskip)

/-- Type parameters have the parts of their groups. -/
theorem TypeParams.accounted {params : List (Field TypeExpr)} {run : List Token}
    (h : TypeParams F params run) : Accounted F run (params.flatMap Field.parts) := by
  cases h with
  | none => exact .nil
  | some hlb _ hlisted =>
    refine .cons_of_eq hlb rfl (hlisted.accounted fun f part hf => ?_)
    obtain ⟨hnames, ht, -⟩ := hf
    simpa [Field.parts, partsOf] using
      (names_accounted hnames).append (ht.accounted Spells.accounted)

/-- A type declaration has its name, its type parameters and its type. -/
theorem TypeSpecRun.accounted {spec : TypeSpec} {run : List Token}
    (h : TypeSpecRun F spec run) : Accounted F run spec.parts := by
  obtain ⟨hname, hparams, hsign, htype⟩ := h
  have hsigned : ∀ {isAlias signRun}, AliasSign isAlias signRun →
      Accounted F signRun [] := by
    intro isAlias signRun hsign
    cases hsign with
    | none => exact .nil
    | some heq => exact .single_of_eq heq rfl
  have hall := hname.accounted.append
    ((hparams.accounted.append (hsigned hsign)).append
      (Inner.accounted Spells.accounted htype))
  simpa [TypeSpec.parts] using hall

/-- A group has the parts of its specs. Its keyword and parentheses
carry no text. -/
theorem GroupRun.accounted {σ : Type} {word : Keyword} {spec : σ → List Token → Prop}
    {parts : σ → List Part} {P : Token → Prop} {g : Group σ} {run : List Token}
    (hspec : ∀ a part, spec a part → (∀ t ∈ part, P t) → Accounted F part (parts a))
    (h : GroupRun F word spec g run) (hP : ∀ t ∈ run, P t) :
    Accounted F run (g.specs.flatMap parts) := by
  cases h with
  | single hkw ha _ =>
    rw [List.forall_mem_cons] at hP
    simpa using Accounted.cons_of_eq hkw rfl (hspec _ _ ha hP.2)
  | listed hkw hlp hlisted _ =>
    rw [List.forall_mem_cons, List.forall_mem_cons] at hP
    refine .cons_of_eq hkw rfl (.cons_of_eq hlp rfl ?_)
    exact (hlisted.forall_mem hP.2.2).accounted
      fun a part ha => hspec a part ha.1 ha.2

/-- A function has the parts of its signature, and its body as a region. -/
theorem FuncRun.accounted {decl : FuncDecl} {run : List Token}
    (h : FuncRun F decl run) : Accounted F run decl.parts := by
  obtain ⟨hkw, hreceiver, hname, htypes, hsig, hbody, -⟩ := h
  have hreceived : ∀ {receiver receiverRun}, ReceiverRun F receiver receiverRun →
      Accounted F receiverRun (partsOf Field.parts receiver) := by
    intro receiver receiverRun hreceiver
    cases hreceiver with
    | none => exact .nil
    | some hparams => simpa [partsOf] using hparams.accounted Spells.accounted
  have hskipped : ∀ {body bodyRun}, BodyRun F body bodyRun →
      Accounted F bodyRun (partsOf (fun s => [.skipped s]) body) := by
    intro body bodyRun hbody
    cases hbody with
    | none => exact .nil
    | some _ hskip => exact .region hskip
  have hall := Accounted.cons_of_eq hkw rfl
    ((hreceived hreceiver).append (hname.accounted.append
    (htypes.accounted.append
      ((hsig.accounted Spells.accounted).append (hskipped hbody)))))
  simpa [FuncDecl.parts] using hall

theorem DeclRun.accounted {d : Decl} {run : List Token} (h : DeclRun F d run)
    (hdot : ∀ t ∈ run, NoDotName t) : Accounted F run d.parts := by
  cases h with
  | imports hgroup => exact hgroup.accounted (fun _ _ => ImportRun.accounted) hdot
  | consts hgroup => exact hgroup.accounted (fun _ _ hspec _ => hspec.accounted) hdot
  | vars hgroup => exact hgroup.accounted (fun _ _ hspec _ => hspec.accounted) hdot
  | types hgroup => exact hgroup.accounted (fun _ _ hspec _ => hspec.accounted) hdot
  | func hfunc => exact hfunc.accounted

theorem Semicolons.accounted {run : List Token} (h : Semicolons run) :
    Accounted F run [] := by
  induction run with
  | nil => exact .nil
  | cons t run ih =>
    obtain ⟨ht, hrun⟩ := List.forall_mem_cons.mp h
    exact .cons_of_eq ht rfl (ih hrun)

/-- **Every token of the declarations is a leaf, lies in a region, or
carries no text.** -/
theorem DeclsRun.accounted {ds : List Decl} {run : List Token} (h : DeclsRun F ds run)
    (hdot : ∀ t ∈ run, NoDotName t) : Accounted F run (ds.flatMap Decl.parts) := by
  induction h with
  | nil hsemi => exact hsemi.accounted
  | cons hbefore hd hbehind _ ih =>
    simp only [List.forall_mem_append] at hdot
    have hall := ((hbefore.accounted.append (hd.accounted hdot.1.1.2)).append
      hbehind.accounted).append (ih hdot.2)
    simpa using hall

/-- The tokens of a file are accounted for by its parts. -/
theorem FileRun.accounted {f : SourceFile} {run : List Token} (h : FileRun F f run)
    (hdot : ∀ t ∈ run, NoDotName t) : Accounted F run f.parts := by
  obtain ⟨hbefore, hkw, hname, hbehind, hdecls⟩ := h
  simp only [List.forall_mem_append, List.forall_mem_cons] at hdot
  have hall := hbefore.accounted.append (.cons_of_eq hkw rfl
    (hname.accounted.append
      (hbehind.accounted.append (hdecls.accounted hdot.2.2.2.2))))
  simpa [SourceFile.parts] using hall

end Grammar

/-! ## Exact spans -/

/-- The span reaches from the start of the first token to the end of
the last one. -/
def Span.Exact (s : Span) (run : List Token) : Prop :=
  ∃ first last, run.head? = some first ∧ run.getLast? = some last ∧
    s = .clamp first.start last.stop

/-- Tokens that follow each other. -/
structure InOrder (run : List Token) : Prop where
  ordered : Token.Ordered run
  start_le_stop : ∀ t ∈ run, t.start ≤ t.stop

namespace InOrder

/-- A part of tokens in order is in order. -/
theorem left {a b : List Token} (h : InOrder (a ++ b)) : InOrder a :=
  ⟨(List.pairwise_append.mp h.ordered).1,
    fun t ht => h.start_le_stop t (List.mem_append_left b ht)⟩

theorem right {a b : List Token} (h : InOrder (a ++ b)) : InOrder b :=
  ⟨(List.pairwise_append.mp h.ordered).2.1,
    fun t ht => h.start_le_stop t (List.mem_append_right a ht)⟩

/-- Every token starts at or behind the start of the first one. -/
theorem head_start_le {run : List Token} {first t : Token} (h : InOrder run)
    (hfirst : run.head? = some first) (ht : t ∈ run) : first.start ≤ t.start := by
  obtain ⟨more, rfl⟩ := List.head?_eq_some_iff.mp hfirst
  rcases List.mem_cons.mp ht with rfl | ht
  · exact Nat.le_refl _
  · have hle := h.start_le_stop first List.mem_cons_self
    have hnext := (List.pairwise_cons.mp h.ordered).1 t ht
    omega

/-- Every token stops at or before the end of the last one. -/
theorem stop_le_getLast {run : List Token} {last t : Token} (h : InOrder run)
    (hlast : run.getLast? = some last) (ht : t ∈ run) : t.stop ≤ last.stop := by
  obtain ⟨before, rfl⟩ := List.getLast?_eq_some_iff.mp hlast
  rcases List.mem_append.mp ht with ht | ht
  · have hle := h.start_le_stop last (by simp)
    have hnext := (List.pairwise_append.mp h.ordered).2.2 t ht last (by simp)
    omega
  · rw [List.mem_singleton.mp ht]

end InOrder

/-- Spans are exact, in runs of tokens that follow each other. -/
def Placement.exact : Placement where
  allows := InOrder
  fits := Span.Exact
  allows_left := InOrder.left
  allows_right := InOrder.right
  fits_extent := fun _ hfirst hlast => ⟨_, _, hfirst, hlast, rfl⟩
  fits_since := by
    intro run first last hrun hfirst hlast
    refine ⟨first, last, hfirst, hlast, ?_⟩
    have hmem : first ∈ run := List.mem_of_mem_head? hfirst
    have hle := hrun.start_le_stop first hmem
    have hstop := hrun.stop_le_getLast hlast hmem
    unfold Token.span Span.clamp
    rw [Span.mk.injEq]
    constructor
    · show min (min first.start Span.maxOffset) Span.maxOffset = _
      omega
    · show min (max last.stop (min first.start Span.maxOffset)) Span.maxOffset = _
      omega
  fits_join := by
    intro a between b s s' _ hane hbne hfits hfits'
    obtain ⟨first, last, hfirst, -, rfl⟩ := hfits
    obtain ⟨first', last', -, hlast', rfl⟩ := hfits'
    refine ⟨first, last', ?_, ?_, rfl⟩
    · rw [List.append_assoc, List.head?_append, hfirst]
      rfl
    · rw [List.getLast?_append, hlast']
      rfl

/-- The token lies within the span. -/
def Span.Covers (s : Span) (t : Token) : Prop :=
  s.start ≤ t.start ∧ t.stop ≤ s.stop

instance (s : Span) (t : Token) : Decidable (s.Covers t) :=
  inferInstanceAs (Decidable (s.start ≤ t.start ∧ t.stop ≤ s.stop))

/-- The token carries a text and lies in none of the regions. -/
def Token.Visible (regions : List Span) (t : Token) : Prop :=
  t.tok.text?.isSome ∧ ∀ s ∈ regions, ¬ s.Covers t

instance (regions : List Span) (t : Token) : Decidable (t.Visible regions) :=
  inferInstanceAs (Decidable (t.tok.text?.isSome ∧ ∀ s ∈ regions, ¬ s.Covers t))

/-- The token as the leaf that it should become. -/
def Token.leaf (t : Token) : Leaf :=
  ⟨t.tok, ⟨t.start, t.stop⟩⟩

namespace Grammar

/-- What is needed of tokens to find them by their offsets: they follow
each other, offsets are recorded as they are, and a token with a text
is not empty. -/
structure Locatable (run : List Token) : Prop where
  inOrder : InOrder run
  stop_le : ∀ t ∈ run, t.stop ≤ Span.maxOffset
  nonempty : ∀ t ∈ run, t.tok.text?.isSome → t.start < t.stop

namespace Locatable

theorem left {a b : List Token} (h : Locatable (a ++ b)) : Locatable a :=
  ⟨h.inOrder.left, fun t ht => h.stop_le t (List.mem_append_left b ht),
    fun t ht => h.nonempty t (List.mem_append_left b ht)⟩

theorem right {a b : List Token} (h : Locatable (a ++ b)) : Locatable b :=
  ⟨h.inOrder.right, fun t ht => h.stop_le t (List.mem_append_right a ht),
    fun t ht => h.nonempty t (List.mem_append_right a ht)⟩

/-- An exact span has the offsets of the tokens at its ends. -/
theorem eq_of_exact {s : Span} {run : List Token} (h : Locatable run)
    (hs : s.Exact run) :
    ∃ first last, run.head? = some first ∧ run.getLast? = some last ∧
      first ∈ run ∧ last ∈ run ∧
      s = ⟨first.start, last.stop⟩ := by
  obtain ⟨first, last, hfirst, hlast, rfl⟩ := hs
  have hmem : first ∈ run := List.mem_of_mem_head? hfirst
  have hmem' : last ∈ run := List.mem_of_getLast? hlast
  refine ⟨first, last, hfirst, hlast, hmem, hmem', ?_⟩
  have hle := h.inOrder.start_le_stop first hmem
  have hmax := h.stop_le first hmem
  have hmax' := h.stop_le last hmem'
  unfold Span.clamp
  rw [Span.mk.injEq]
  omega

end Locatable

/-- A skipped region starts with a token of the run. -/
theorem Accounted.start_of_skipped {run : List Token} {parts : List Part} {s : Span}
    (h : Accounted .exact run parts) (hrun : Locatable run)
    (hs : s ∈ parts.filterMap Part.skipped?) : ∃ t ∈ run, s.start = t.start := by
  induction h with
  | nil => cases hs
  | @mark t run parts _ _ ih =>
    obtain ⟨u, hu, hstart⟩ := ih (Locatable.right (a := [t]) hrun) hs
    exact ⟨u, List.mem_cons_of_mem _ hu, hstart⟩
  | @leaf t s' run parts _ _ _ ih =>
    obtain ⟨u, hu, hstart⟩ := ih (Locatable.right (a := [t]) hrun) hs
    exact ⟨u, List.mem_cons_of_mem _ hu, hstart⟩
  | @skipped s' part run parts hskip _ ih =>
    rcases List.mem_cons.mp hs with rfl | hs
    · obtain ⟨first, last, -, -, hmem, -, rfl⟩ := hrun.left.eq_of_exact hskip.fits
      exact ⟨first, List.mem_append_left _ hmem, rfl⟩
    · obtain ⟨u, hu, hstart⟩ := ih hrun.right hs
      exact ⟨u, List.mem_append_right _ hu, hstart⟩

/-- **The leaves are the tokens with a text that lie in no skipped region.**
Regions that cover no token of the run (`others`) do not disturb that; they are
the ones that were passed before. -/
theorem Accounted.leaves_eq {run : List Token} {parts : List Part}
    (h : Accounted .exact run parts) :
    ∀ others : List Span, Locatable run →
      (∀ s ∈ others, ∀ t ∈ run, t.tok.text?.isSome → ¬ s.Covers t) →
      (run.filter (Token.Visible (others ++ parts.filterMap Part.skipped?))).map
        Token.leaf
        = parts.filterMap Part.leaf? := by
  induction h with
  | nil => intro others _ _; rfl
  | @mark t run parts ht _ ih =>
    intro others hrun hothers
    rw [List.filter_cons_of_neg (by simp [Token.Visible, ht])]
    exact ih others (Locatable.right (a := [t]) hrun) fun s hs u hu =>
      hothers s hs u (List.mem_cons_of_mem t hu)
  | @leaf t s run parts ht hs hrest ih =>
    intro others hrun hothers
    have hright := Locatable.right (a := [t]) hrun
    have hleft := Locatable.left (a := [t]) hrun
    have hnonempty := hrun.nonempty t List.mem_cons_self ht
    -- a region behind the token starts where a later token starts
    have hlater : ∀ s' ∈ parts.filterMap Part.skipped?, ¬ s'.Covers t := by
      intro s' hs' hcovers
      obtain ⟨u, hu, hstart⟩ := hrest.start_of_skipped hright hs'
      have hnext := (List.pairwise_cons.mp hrun.inOrder.ordered).1 u hu
      have hle := hcovers.1
      omega
    have hkeep : t.Visible (others ++ parts.filterMap Part.skipped?) := by
      refine ⟨ht, fun s' hs' => ?_⟩
      rcases List.mem_append.mp hs' with hs' | hs'
      · exact hothers s' hs' t List.mem_cons_self ht
      · exact hlater s' hs'
    have hspan : s = ⟨t.start, t.stop⟩ := by
      obtain ⟨first, last, hfirst, hlast, -, -, rfl⟩ := hleft.eq_of_exact hs
      cases hfirst
      cases hlast
      rfl
    rw [hspan]
    have htail := ih others hright
      fun s' hs' u hu => hothers s' hs' u (List.mem_cons_of_mem t hu)
    show ((t :: run).filter
      (Token.Visible (others ++ parts.filterMap Part.skipped?))).map Token.leaf
      = t.leaf :: parts.filterMap Part.leaf?
    rw [List.filter_cons_of_pos (by simpa using hkeep), List.map_cons, htail]
  | @skipped s part run parts hskip _ ih =>
    intro others hrun hothers
    obtain ⟨first, last, hfirst, hlast, -, hmem, rfl⟩ :=
      hrun.left.eq_of_exact hskip.fits
    have hcovered : ∀ t ∈ part, Span.Covers ⟨first.start, last.stop⟩ t := fun t ht =>
      ⟨hrun.left.inOrder.head_start_le hfirst ht,
        hrun.left.inOrder.stop_le_getLast hlast ht⟩
    have hbehind : ∀ t ∈ run, t.tok.text?.isSome →
        ¬ Span.Covers ⟨first.start, last.stop⟩ t := by
      intro t ht htext hcovers
      have hnext := (List.pairwise_append.mp hrun.inOrder.ordered).2.2 last hmem t ht
      have hlt := hrun.right.nonempty t ht htext
      have hle : t.stop ≤ last.stop := hcovers.2
      omega
    have hpart : part.filter (Token.Visible (others ++
        (Part.skipped ⟨first.start, last.stop⟩ :: parts).filterMap Part.skipped?))
          = [] := by
      refine List.filter_eq_nil_iff.mpr fun t ht hkeep => ?_
      have hall := (of_decide_eq_true hkeep).2
      exact hall ⟨first.start, last.stop⟩ (List.mem_append_right _ List.mem_cons_self)
        (hcovered t ht)
    have hmore := ih (⟨first.start, last.stop⟩ :: others) hrun.right (by
      intro s hs t ht htext
      rcases List.mem_cons.mp hs with rfl | hs
      · exact hbehind t ht htext
      · exact hothers s hs t (List.mem_append_right _ ht) htext)
    rw [List.filter_append, hpart, List.nil_append]
    refine Eq.trans (congrArg _ (List.filter_congr fun t _ => ?_)) hmore
    rw [decide_eq_decide]
    refine and_congr_right fun _ => forall_congr' fun s => imp_congr_left ?_
    simp only [List.filterMap_cons, Part.skipped?, List.mem_append, List.mem_cons,
      List.cons_append]
    exact or_left_comm

end Grammar

/-! ## Sources -/

/-- A source is accepted if it has no faults and its tokens are a file. -/
theorem parseSource_eq_ok_iff {source : String} {file : SourceFile} :
    parseSource source = .ok file ↔ (tokenize source).diagnostics = [] ∧
      parseTokens (tokenize source).tokens (Text.byteLength source.toList)
        = .ok file := by
  unfold parseSource
  dsimp only
  rw [← List.isEmpty_iff]
  split
  next hempty =>
    rw [and_iff_right hempty]
    cases parseTokens (tokenize source).tokens
      (Text.byteLength source.toList) <;> simp
  next hfaults => simp [hfaults]

/-- A source that parses has tokens that parse. -/
theorem parseTokens_of_parseSource {source : String} {file : SourceFile}
    (h : parseSource source = .ok file) :
    parseTokens (tokenize source).tokens (Text.byteLength source.toList) = .ok file :=
  (parseSource_eq_ok_iff.mp h).2

/-- A value with a property that can be checked is there if the check succeeds. -/
theorem exists_ok_of_any {ε α : Type} {x : Except ε α} {q : α → Bool}
    (h : x.toOption.any q = true) : ∃ a, x = .ok a ∧ q a = true := by
  cases x with
  | error e => cases h
  | ok a => exact ⟨a, rfl, h⟩

/-- A lone dot is no identifier of any source. -/
theorem Token.Placed.noDotName {source : String} {t : Token} (h : t.Placed source) :
    Grammar.NoDotName t := by
  intro htok
  obtain ⟨l, hl, hltok⟩ := h.of_text "." (by rw [htok]; rfl)
  rw [htok] at hltok
  obtain ⟨c, rest, cls, n, hcut, rfl⟩ := Lexeme.mem_cut hl
  have hcls : cls = .ident := by
    cases cls with
    | ident => rfl
    | _ => simp [Lexeme.tok?] at hltok
  subst hcls
  have htext : "." = String.ofList (c :: rest.take n) := Lexeme.text_of_tok? hltok rfl
  have hchar : c :: rest.take n = ['.'] := by
    rw [← String.toList_ofList (l := c :: rest.take n), ← htext]
    rfl
  have hstart := (Lexeme.cutFirst_ident hcut).1
  rw [(List.cons.inj hchar).1] at hstart
  cases hstart

/-- The tokens of a source whose offsets are all recorded can be found by them. -/
theorem locatable_tokenize {source : String}
    (h : Text.byteLength source.toList ≤ Span.maxOffset) :
    Grammar.Locatable (tokenize source).tokens := by
  obtain ⟨hplaced, hordered⟩ := Token.tokenize_placed source
  refine ⟨⟨hordered, fun t ht => (hplaced t ht).start_le_stop⟩, fun t ht => ?_,
    fun t ht htext => ?_⟩
  · exact Nat.le_trans (hplaced t ht).stop_le h
  · obtain ⟨text, htext⟩ := Option.isSome_iff_exists.mp htext
    exact ((hplaced t ht).slice_eq text htext).1

/-- **No identifier or literal is lost, doubled or moved by parsing.** Those
of the source that lie in no skipped region are the leaves of the tree, in
order, with their text and their place; and each leaf has the text that the
source has at its span. -/
theorem leaves_of_parseSource {source : String} {file : SourceFile}
    (hlength : Text.byteLength source.toList ≤ Span.maxOffset)
    (h : parseSource source = .ok file) :
    ((tokenize source).tokens.filter (Token.Visible file.skipped)).map Token.leaf
      = file.leaves ∧
    ∀ l ∈ file.leaves, ∃ text, l.tok.text? = some text ∧
      Text.slice source l.span.start l.span.stop = Text.bytes text := by
  obtain ⟨hplaced, -⟩ := Token.tokenize_placed source
  have hlocatable := locatable_tokenize hlength
  have hrun : Grammar.FileRun .exact file (tokenize source).tokens :=
    fileRun_of_parseTokens (parseTokens_of_parseSource h) hlocatable.inOrder
  have haccounted := hrun.accounted fun t ht => (hplaced t ht).noDotName
  have hleaves :
    ((tokenize source).tokens.filter (Token.Visible file.skipped)).map Token.leaf
      = file.leaves :=
    haccounted.leaves_eq [] hlocatable fun s hs => by cases hs
  refine ⟨hleaves, fun l hl => ?_⟩
  rw [← hleaves] at hl
  obtain ⟨t, ht, rfl⟩ := List.mem_map.mp hl
  obtain ⟨hmem, hvisible⟩ := List.mem_filter.mp ht
  obtain ⟨text, htext⟩ := Option.isSome_iff_exists.mp (of_decide_eq_true hvisible).1
  exact ⟨text, htext, ((hplaced t hmem).slice_eq text htext).2⟩

/-- A source with a dot import, a length that is not understood and
an initializer. -/
def sampleSource : String :=
  "package p\nimport . \"m\"\nvar a, b [1+n]T = c\n"

/-- The names `n` and `c` lie in skipped regions of the sample; the others
are its leaves. -/
theorem leaves_of_sampleSource :
    ∃ file, Text.byteLength sampleSource.toList ≤ Span.maxOffset ∧
      parseSource sampleSource = .ok file ∧
      ((tokenize sampleSource).tokens.filter (Token.Visible file.skipped)).map
        Token.leaf
        = file.leaves := by
  have hlength : Text.byteLength sampleSource.toList ≤ Span.maxOffset := by
    decide +kernel
  have hsome : (parseSource sampleSource).toOption.isSome = true := by decide +kernel
  cases hparse : parseSource sampleSource with
  | error e =>
    rw [hparse] at hsome
    cases hsome
  | ok file => exact ⟨file, hlength, rfl, (leaves_of_parseSource hlength hparse).1⟩

end GoInventory
