import GoInventory.Proofs.Syntax.BracketWords
import GoInventory.Proofs.Syntax.SpanNesting

/-!
# Skipped regions

The parser looks into bodies of functions and into initializers only to find
their end. For a body it counts braces and nothing else, so the braces of a body
are nested, and the last one closes the first (`IsBody`). For an initializer it
counts the brackets of all kinds alike, so they are balanced, and no semicolon
stands outside of them (`IsInitializer`).

Neither makes a bracket word of the region. A body may leave a parenthesis open,
and an initializer may close it with a square bracket. What has to hold in
addition is said by `KindsMatch`, in a body together with the count of all
brackets (`regions_of_parseSource`).
-/

namespace GoInventory

/-- A brace. -/
def Tok.isBrace : Tok → Bool
  | op .openBrace | op .closeBrace => true
  | _ => false

/-- The braces of a run. -/
def braces (run : List Token) : List Token :=
  run.filter (·.tok.isBrace)

/-- A block, as far as its braces are concerned. -/
inductive IsBody : List Token → Prop
  | mk {lb rb : Token} {inner : List Token} : lb.tok = .op .openBrace →
      rb.tok = .op .closeBrace →
    Balanced (braces inner) → IsBody (lb :: (inner ++ [rb]))

/-- Expressions, as far as their brackets can be counted. -/
structure IsInitializer (run : List Token) : Prop where
  ne_nil : run ≠ []
  balanced : Balanced run
  semicolon : ∀ before t behind, run = before ++ t :: behind →
    t.tok = .op .semicolon →
    depthAfter? 0 before ≠ some 0

/-- Each span has its tokens in the run, and they have the property. -/
def Regions (P : List Token → Prop) (spans : List Span) (run : List Token) : Prop :=
  ∀ s ∈ spans, ∃ before region behind, run = before ++ (region ++ behind) ∧
    s.Exact region ∧ P region

namespace Decl

/-- The bodies of functions. -/
def bodies : Decl → List Span
  | func decl => decl.body.toList
  | _ => []

/-- The initializers of constants and variables. -/
def initializers : Decl → List Span
  | consts group | vars group => group.specs.flatMap (·.values.toList)
  | _ => []

end Decl

namespace SourceFile

def bodies (file : SourceFile) : List Span :=
  file.decls.flatMap Decl.bodies

def initializers (file : SourceFile) : List Span :=
  file.decls.flatMap Decl.initializers

end SourceFile

/-! ## The two scans -/

theorem braces_cons {t : Token} (h : t.tok.isBrace = true) (run : List Token) :
    braces (t :: run) = t :: braces run := by
  simp [braces, h]

theorem braces_cons_other {t : Token} (h : t.tok.isBrace = false) (run : List Token) :
    braces (t :: run) = braces run := by
  simp [braces, h]

/-- The braces of two runs are those of the one and those of the other. -/
theorem braces_append (a b : List Token) : braces (a ++ b) = braces a ++ braces b :=
  List.filter_append ..

/-- A token opens a brace, closes one, or has nothing to do with braces. -/
theorem Tok.brace_cases (t : Tok) :
    t = .op .openBrace ∨ t = .op .closeBrace ∨ t.isBrace = false := by
  cases h : t.isBrace with
  | false => exact Or.inr (Or.inr rfl)
  | true =>
    unfold isBrace at h
    split at h
    · exact Or.inl rfl
    · exact Or.inr (Or.inl rfl)
    · cases h

/-- Other tokens are passed over. -/
theorem blockEnd?_other {t : Token} (h : t.tok.isBrace = false) (depth : Nat)
    (rest : List Token) : blockEnd? depth (t :: rest) = blockEnd? depth rest := by
  rw [blockEnd?.eq_def]
  dsimp only
  split
  next htok =>
    rw [htok] at h
    cases h
  next htok =>
    rw [htok] at h
    cases h
  next htok =>
    rw [htok] at h
    cases h
  next => rfl

/-- The block ends where the count of its braces does. -/
theorem braces_of_blockEnd? {tokens : List Token} :
    ∀ {depth : Nat} {last : Token} {rest : List Token},
      blockEnd? depth tokens = some (last, rest) →
      ∃ run, tokens = run ++ last :: rest ∧ last.tok = .op .closeBrace ∧
        depthAfter? depth (braces run) = some 0 := by
  induction tokens with
  | nil => intro depth last rest h; cases h
  | cons t tokens ih =>
    intro depth last rest h
    rcases t.tok.brace_cases with htok | htok | hother
    · have hnext : blockEnd? (depth + 1) tokens = some (last, rest) := by
        simpa [blockEnd?, htok] using h
      obtain ⟨run, rfl, hlast, hrun⟩ := ih hnext
      refine ⟨t :: run, rfl, hlast, ?_⟩
      rw [braces_cons (by rw [htok]; rfl), depthAfter?_opening (by rw [htok]; rfl)]
      exact hrun
    · cases depth with
      | zero =>
        have hlast : t = last ∧ tokens = rest := by simpa [blockEnd?, htok] using h
        exact ⟨[], by rw [hlast.1, hlast.2]; rfl, hlast.1 ▸ htok, rfl⟩
      | succ outer =>
        have hnext : blockEnd? outer tokens = some (last, rest) := by
          simpa [blockEnd?, htok] using h
        obtain ⟨run, rfl, hlast, hrun⟩ := ih hnext
        refine ⟨t :: run, rfl, hlast, ?_⟩
        rw [braces_cons (by rw [htok]; rfl),
          depthAfter?_closing_succ (by rw [htok]; rfl)]
        exact hrun
    · rw [blockEnd?_other hother] at h
      obtain ⟨run, rfl, hlast, hrun⟩ := ih h
      refine ⟨t :: run, rfl, hlast, ?_⟩
      rw [braces_cons_other hother]
      exact hrun

/-- What the extent takes is counted right, and no semicolon is taken outside
all brackets. -/
structure ExprExtent.Counted (depth : Nat) (e : ExprExtent) : Prop where
  depth_eq : depthAfter? depth e.taken = some e.depth
  semicolon : ∀ before t behind, e.taken = before ++ t :: behind →
    t.tok = .op .semicolon →
    depthAfter? depth before ≠ some 0

namespace ExprExtent.Counted

/-- Where the search stops at once, nothing was taken. -/
theorem nothing (depth : Nat) (rest : List Token) : Counted depth ⟨[], rest, depth⟩ :=
  ⟨rfl, fun _ _ _ h => absurd h (by simp)⟩

/-- One more token is taken, and `inner` brackets are open behind it. -/
theorem cons {t : Token} {depth inner : Nat} {e : ExprExtent} (h : Counted inner e)
    (hcount : ∀ more, depthAfter? depth (t :: more) = depthAfter? inner more)
    (hsemicolon : t.tok = .op .semicolon → depth ≠ 0) : Counted depth (e.cons t) := by
  refine ⟨(hcount _).trans h.depth_eq, fun before u behind heq hu => ?_⟩
  cases before with
  | nil =>
    obtain ⟨rfl, -⟩ := List.cons.inj heq
    exact fun hzero => hsemicolon hu (Option.some.inj hzero)
  | cons first before =>
    obtain ⟨rfl, hrest⟩ := List.cons.inj heq
    rw [hcount]
    exact h.semicolon before u behind hrest hu

end ExprExtent.Counted

/-- The search for the end of an initializer counts brackets as they are
counted here. -/
theorem ExprExtent.counted_scan (tokens : List Token) :
    ∀ depth, (scan depth tokens).Counted depth := by
  induction tokens with
  | nil => exact fun depth => .nothing depth []
  | cons t tokens ih =>
    intro depth
    unfold scan
    split
    next ho =>
      refine (ih _).cons (fun more => depthAfter?_opening ho) fun htok => ?_
      rw [htok] at ho
      cases ho
    next ho =>
      split
      next hc =>
        split
        next => exact .nothing 0 _
        next outer =>
          exact (ih outer).cons (fun more => depthAfter?_closing_succ hc)
            fun _ => nofun
      next hc =>
        split
        next hstop =>
          obtain ⟨-, hzero⟩ := Bool.and_eq_true_iff.mp hstop
          rw [eq_of_beq hzero]
          exact .nothing 0 _
        next hstop =>
          have hcount : ∀ more, depthAfter? depth (t :: more)
              = depthAfter? depth more := fun more =>
            depthAfter?_plain (Bool.eq_false_iff.mpr ho) (Bool.eq_false_iff.mpr hc)
          refine (ih depth).cons hcount fun htok hzero => hstop ?_
          rw [htok, hzero]
          rfl

/-! ## The parsers -/

namespace Regions

variable {P : List Token → Prop} {spans spans' : List Span} {a b : List Token}

theorem nil (run : List Token) : Regions P [] run := nofun

/-- Regions of two runs are regions of both together, in order. -/
theorem append (ha : Regions P spans a) (hb : Regions P spans' b) :
    Regions P (spans ++ spans') (a ++ b) := by
  intro s hs
  rcases List.mem_append.mp hs with hs | hs
  · obtain ⟨before, region, behind, rfl, hregion⟩ := ha s hs
    exact ⟨before, region, behind ++ b, by simp, hregion⟩
  · obtain ⟨before, region, behind, rfl, hregion⟩ := hb s hs
    exact ⟨a ++ before, region, behind, by simp, hregion⟩

theorem behind (hb : Regions P spans b) (a : List Token) : Regions P spans (a ++ b) :=
  (nil a).append hb

theorem before (ha : Regions P spans a) (b : List Token) :
    Regions P spans (a ++ b) := by
  have h := ha.append (nil b)
  rwa [List.append_nil] at h

/-- The items of a list keep their regions. -/
theorem listed {α : Type} {spansOf : α → List Span} {separator close : Operator}
    {as : List α} {run : List Token}
    (h : Grammar.Listed (fun x run => Regions P (spansOf x) run)
      separator close as run) :
    Regions P (as.flatMap spansOf) run := by
  induction h with
  | none => exact nil _
  | last hitem _ =>
    rw [List.flatMap_singleton]
    exact hitem.before _
  | @cons _ _ _ _ sep hitem _ _ ih =>
    rw [List.flatMap_cons]
    exact hitem.append (ih.behind [sep])

/-- The regions of a group are those of its specs. -/
theorem group {σ : Type} {spansOf : σ → List Span} {F : Placement} {word : Keyword}
    {g : Group σ} {run : List Token}
    (h : Grammar.GroupRun F word (fun x run => Regions P (spansOf x) run) g run) :
    Regions P (g.specs.flatMap spansOf) run := by
  cases h with
  | @single _ _ kw _ _ hspec _ =>
    rw [List.flatMap_singleton]
    exact hspec.behind [kw]
  | @listed _ _ kw lp _ _ _ hlisted _ => exact (listed hlisted).behind [kw, lp]

end Regions

namespace Parser

open Grammar

variable {c c' : Cursor}

/-- **A body is a block**, as far as its braces are concerned, and its span is
just around it. -/
theorem block_region {s : Span} (h : (block : Parser Span) c = .ok (s, c'))
    (hpeek : c.peek? 0 = some (.op .openBrace)) (hok : Placement.exact.allows c.rest) :
    ∃ run, c.Passes run c' ∧ s.Exact run ∧ IsBody run := by
  obtain ⟨lb, run, hlb, hp, hskipped⟩ := takes_block h hpeek hok
  refine ⟨lb :: run, hp, hskipped.fits, ?_⟩
  -- the run that was passed is the one that the scan for the last brace went over
  have hend : ∃ last, blockEnd? 0 (run ++ c'.rest) = some (last, c'.rest) := by
    unfold block at h
    rw [here_bind] at h
    obtain ⟨_, c₁, hopen, h₁⟩ := bind_eq_ok_iff.mp h
    obtain ⟨lb', -, hp₁⟩ := advance_ok hopen hpeek
    have hrest : c₁.rest = run ++ c'.rest :=
      (List.cons.inj (hp₁.rest.symm.trans hp.rest)).2
    obtain ⟨_, c₂, hskip, h₂⟩ := bind_eq_ok_iff.mp h₁
    cases h₂
    dsimp only [skipBody, AtCursor.skipBody] at hskip
    cases hend : blockEnd? 0 c₁.rest with
    | none =>
      rw [hend] at hskip
      cases hskip
    | some r =>
      obtain ⟨last, rest⟩ := r
      rw [hend] at hskip
      cases hskip
      rw [hrest] at hend
      exact ⟨last, hend⟩
  obtain ⟨last, hend⟩ := hend
  obtain ⟨inner, hsplit, hlast, hbraces⟩ := braces_of_blockEnd? hend
  have hrun : run = inner ++ [last] := by
    have happend : run ++ c'.rest = (inner ++ [last]) ++ c'.rest := by
      rw [hsplit, List.append_assoc]
      rfl
    exact List.append_cancel_right happend
  rw [hrun]
  exact .mk hlb hlast hbraces

/-- **An initializer is balanced**, without a semicolon outside of brackets, and
its span is just around it. -/
theorem takes_expressions_region :
    Takes .exact expressions fun s run => s.Exact run ∧ IsInitializer run := by
  intro c c' s h hok
  obtain ⟨run, hp, hskipped⟩ := takes_expressions h hok
  refine ⟨run, hp, hskipped.fits, ?_⟩
  -- brackets that are still open at the end of the scan are refused
  have hend : (ExprExtent.scan 0 c.rest).depth = 0 ∧
      (ExprExtent.scan 0 c.rest).rest = c'.rest := by
    unfold expressions at h
    rw [here_bind] at h
    obtain ⟨_, c₁, hskip, h₁⟩ := bind_eq_ok_iff.mp h
    cases h₁
    dsimp only [skipExpressions, AtCursor.skipExpressions] at hskip
    by_cases hdepth : (ExprExtent.scan 0 c.rest).depth > 0
    · rw [if_pos hdepth] at hskip
      cases hskip
    rw [if_neg hdepth] at hskip
    cases hlast : (ExprExtent.scan 0 c.rest).taken.getLast? with
    | none =>
      rw [hlast] at hskip
      cases hskip
    | some last =>
      rw [hlast] at hskip
      cases hskip
      exact ⟨Nat.eq_zero_of_not_pos hdepth, rfl⟩
  have hrun : (ExprExtent.scan 0 c.rest).taken = run := by
    have happend := scan_append c.rest 0
    rw [hend.2] at happend
    exact List.append_cancel_right (happend.trans hp.rest)
  have hcounted := ExprExtent.counted_scan c.rest 0
  rw [← hrun]
  exact ⟨hrun ▸ hskipped.ne_nil, hcounted.depth_eq.trans (congrArg some hend.1),
    hcounted.semicolon⟩

/-- The equals sign is not part of the region. -/
theorem takes_values_regions :
    Takes .exact values? fun values run =>
      Regions IsInitializer values.toList run := by
  intro c c' values h hok
  obtain ⟨b, c₁, heat, h₁⟩ := bind_eq_ok_iff.mp h
  rcases eat_ok heat with ⟨rfl, eq, -, hp₁⟩ | ⟨rfl, rfl, -⟩
  · obtain ⟨s, c₂, hs, h₂⟩ := bind_eq_ok_iff.mp h₁
    cases h₂
    obtain ⟨run, hp₂, hexact, hrun⟩ := takes_expressions_region hs (hp₁.allows hok)
    refine ⟨_, hp₁.trans hp₂, Regions.behind (fun s' hs' => ?_) [eq]⟩
    rw [List.mem_singleton.mp hs']
    exact ⟨[], run, [], by simp, hexact, hrun⟩
  · cases h₁
    exact ⟨[], .refl _, .nil []⟩

/-- A value declaration has at most one region. -/
theorem takes_valueSpec_regions :
    Takes .exact valueSpec
      fun spec run => Regions IsInitializer spec.values.toList run := by
  intro c c' spec h hok
  obtain ⟨names, c₁, hnames, h₁⟩ := bind_eq_ok_iff.mp h
  obtain ⟨nameRun, hp₁, -⟩ := takes_identList hnames hok
  have hok₁ := hp₁.allows hok
  obtain ⟨type, c₂, htype, h₂⟩ := bind_eq_ok_iff.mp h₁
  obtain ⟨typeRun, hp₂, -⟩ := takes_valueType htype hok₁
  obtain ⟨values, c₃, hvalues, h₃⟩ := bind_eq_ok_iff.mp h₂
  cases h₃
  obtain ⟨valueRun, hp₃, hregions⟩ := takes_values_regions hvalues (hp₂.allows hok₁)
  exact ⟨_, (hp₁.trans hp₂).trans hp₃, hregions.behind _⟩

/-- Constants are value specs of which some are refused. -/
theorem takes_constSpec_regions (grouped : Bool) :
    Takes .exact (constSpec grouped)
      fun spec run => Regions IsInitializer spec.values.toList run := by
  intro c c' spec h
  obtain ⟨spec, c₁, hspec, h₁⟩ := bind_eq_ok_iff.mp h
  split at h₁
  · cases h₁
  · cases h₁
    exact takes_valueSpec_regions hspec

/-- So are variables. -/
theorem takes_varSpec_regions :
    Takes .exact varSpec
      fun spec run => Regions IsInitializer spec.values.toList run := by
  intro c c' spec h
  obtain ⟨spec, c₁, hspec, h₁⟩ := bind_eq_ok_iff.mp h
  split at h₁
  · cases h₁
  · cases h₁
    exact takes_valueSpec_regions hspec

/-- A function has at most one body. -/
theorem takes_body_regions :
    Takes .exact body? fun body run => Regions IsBody body.toList run := by
  refine takes_of_ask fun c => ?_
  split
  next hnext =>
    intro c' body h hok
    obtain ⟨s, c₁, hs, h₁⟩ := bind_eq_ok_iff.mp h
    cases h₁
    obtain ⟨run, hp, hexact, hrun⟩ := block_region hs (eq_of_beq hnext) hok
    refine ⟨run, hp, fun s' hs' => ?_⟩
    rw [List.mem_singleton.mp hs']
    exact ⟨[], run, [], by simp, hexact, hrun⟩
  next => exact takesAt_pure (.nil [])

/-- The body of a function stands behind its signature. -/
theorem funcDecl_regions {d : FuncDecl}
    (h : (funcDecl : Parser FuncDecl) c = .ok (d, c'))
    (hpeek : c.peek? 0 = some (.keyword .func)) (hok : Placement.exact.allows c.rest) :
    ∃ run, c.Passes run c' ∧ Regions IsBody d.body.toList run := by
  unfold funcDecl funcDeclOf at h
  rw [here_bind] at h
  obtain ⟨_, c₁, hfunc, h₁⟩ := bind_eq_ok_iff.mp h
  obtain ⟨kw, -, hp₁⟩ := advance_ok hfunc hpeek
  have hok₁ := hp₁.allows hok
  obtain ⟨receiver, c₂, hreceiver, h₂⟩ := bind_eq_ok_iff.mp h₁
  obtain ⟨receiverRun, hp₂, -⟩ := takes_receiver hreceiver hok₁
  have hok₂ := hp₂.allows hok₁
  obtain ⟨name, c₃, hname, h₃⟩ := bind_eq_ok_iff.mp h₂
  obtain ⟨t, -, hp₃⟩ := ident_ok hname hok₂
  have hok₃ := hp₃.allows hok₂
  obtain ⟨typeParams, c₄, htypes, h₄⟩ := bind_eq_ok_iff.mp h₃
  obtain ⟨typeRun, hp₄, -⟩ := takes_funcTypeParameters htypes hok₃
  have hok₄ := hp₄.allows hok₃
  obtain ⟨sig, c₅, hsig, h₅⟩ := bind_eq_ok_iff.mp h₄
  obtain ⟨sigRun, e, hp₅, -, -⟩ := takes_signature takes_typeExpr hsig hok₄
  obtain ⟨body, c₆, hbody, h₆⟩ := bind_eq_ok_iff.mp h₅
  obtain ⟨bodyRun, hp₆, hregions⟩ := takes_body_regions hbody (hp₅.allows hok₄)
  rw [since_bind] at h₆
  cases h₆
  have hp := (hp₁.trans (hp₂.trans (hp₃.trans (hp₄.trans hp₅)))).trans hp₆
  exact ⟨_, hp, hregions.behind _⟩

/-- A declaration has the regions that its kind can have. -/
theorem takes_decl_regions : Takes .exact decl fun d run =>
    Regions IsBody d.bodies run ∧ Regions IsInitializer d.initializers run := by
  refine takes_of_ask fun c => ?_
  split
  next hpeek =>
    intro c' d h hok
    obtain ⟨g, c₁, hg, h₁⟩ := bind_eq_ok_iff.mp h
    cases h₁
    obtain ⟨run, hp, -⟩ := takes_group (fun _ => takes_importSpec) hg hpeek hok
    exact ⟨run, hp, .nil run, .nil run⟩
  next hpeek =>
    intro c' d h hok
    obtain ⟨g, c₁, hg, h₁⟩ := bind_eq_ok_iff.mp h
    cases h₁
    obtain ⟨run, hp, hrun⟩ := takes_group takes_constSpec_regions hg hpeek hok
    exact ⟨run, hp, .nil run, .group hrun⟩
  next hpeek =>
    intro c' d h hok
    obtain ⟨g, c₁, hg, h₁⟩ := bind_eq_ok_iff.mp h
    cases h₁
    obtain ⟨run, hp, hrun⟩ :=
      takes_group (fun _ => takes_varSpec_regions) hg hpeek hok
    exact ⟨run, hp, .nil run, .group hrun⟩
  next hpeek =>
    intro c' d h hok
    obtain ⟨g, c₁, hg, h₁⟩ := bind_eq_ok_iff.mp h
    cases h₁
    obtain ⟨run, hp, -⟩ := takes_group (fun _ => takes_typeSpec) hg hpeek hok
    exact ⟨run, hp, .nil run, .nil run⟩
  next hpeek =>
    intro c' d h hok
    obtain ⟨f, c₁, hf, h₁⟩ := bind_eq_ok_iff.mp h
    cases h₁
    obtain ⟨run, hp, hrun⟩ := funcDecl_regions hf hpeek hok
    exact ⟨run, hp, hrun, .nil run⟩
  next => exact takesAt_unexpected

/-- The regions of a file are found declaration by declaration. -/
theorem declItems_regions (bound : Nat) :
    Takes .exact (declItems decl bound) fun ds run =>
    Regions IsBody (ds.flatMap Decl.bodies) run ∧
      Regions IsInitializer (ds.flatMap Decl.initializers) run := by
  induction bound with
  | zero => intro c c' ds h; cases h
  | succ bound ih =>
    intro c c' ds h hok
    obtain ⟨_, c₁, hsemi, h₁⟩ := bind_eq_ok_iff.mp h
    obtain ⟨before, hp₁, -⟩ := takes_semicolons hsemi hok
    have hok₁ := hp₁.allows hok
    rw [peek?_bind] at h₁
    cases hpeek : c₁.peek? 0 with
    | none =>
      rw [hpeek] at h₁
      cases h₁
      exact ⟨before, hp₁, .nil before, .nil before⟩
    | some tok =>
      rw [hpeek] at h₁
      obtain ⟨d, c₂, hd, h₂⟩ := bind_eq_ok_iff.mp h₁
      obtain ⟨run, hp₂, hbodies, hinitializers⟩ := takes_decl_regions hd hok₁
      have hok₂ := hp₂.allows hok₁
      obtain ⟨_, c₃, hend, h₃⟩ := bind_eq_ok_iff.mp h₂
      obtain ⟨behind, hp₃, -⟩ := takes_terminator hend hok₂
      obtain ⟨others, c₄, hothers, h₄⟩ := bind_eq_ok_iff.mp h₃
      cases h₄
      obtain ⟨more, hp₄, hbodies', hinitializers'⟩ := ih hothers (hp₃.allows hok₂)
      refine ⟨_, ((hp₁.trans hp₂).trans hp₃).trans hp₄, ?_, ?_⟩
      · exact ((hbodies.behind before).before behind).append hbodies'
      · exact ((hinitializers.behind before).before behind).append hinitializers'

/-- All regions of a file have their tokens in it. -/
theorem takes_file_regions : Takes .exact file fun file run =>
    Regions IsBody file.bodies run ∧ Regions IsInitializer file.initializers run := by
  intro c c' f h hok
  obtain ⟨_, c₁, hsemi, h₁⟩ := bind_eq_ok_iff.mp h
  obtain ⟨before, hp₁, -⟩ := takes_semicolons hsemi hok
  obtain ⟨_, c₂, hpackage, h₂⟩ := bind_eq_ok_iff.mp h₁
  obtain ⟨kw, -, hp₂⟩ := expect_ok hpackage
  have hok₂ := (hp₁.trans hp₂).allows hok
  obtain ⟨name, c₃, hname, h₃⟩ := bind_eq_ok_iff.mp h₂
  obtain ⟨t, -, hp₃⟩ := ident_ok hname hok₂
  have hok₃ := hp₃.allows hok₂
  obtain ⟨_, c₄, hend, h₄⟩ := bind_eq_ok_iff.mp h₃
  obtain ⟨behind, hp₄, -⟩ := takes_terminator hend hok₃
  obtain ⟨decls, c₅, hdecls, h₅⟩ := bind_eq_ok_iff.mp h₄
  cases h₅
  obtain ⟨run, hp₅, hbodies, hinitializers⟩ :=
    declItems_regions _ hdecls (hp₄.allows hok₃)
  have hp := (hp₁.trans (hp₂.trans (hp₃.trans hp₄))).trans hp₅
  exact ⟨_, hp, hbodies.behind _, hinitializers.behind _⟩

end Parser

/-! ## Bracket words -/

/-- Braces are all of one kind. -/
theorem kindsMatch_braces (run : List Token) : KindsMatch (braces run) := by
  intro before o inner c behind heq ho _ hc
  have hbrace : ∀ t ∈ braces run,
      t.tok = .op .openBrace ∨ t.tok = .op .closeBrace := by
    intro t ht
    rcases t.tok.brace_cases with htok | htok | hother
    · exact Or.inl htok
    · exact Or.inr htok
    · have hkept : t.tok.isBrace = true := (List.mem_filter.mp ht).2
      rw [hother] at hkept
      cases hkept
  rcases hbrace o (by simp [heq]) with hopen | hopen
  · rcases hbrace c (by simp [heq]) with hclose | hclose
    · rw [hclose] at hc
      cases hc
    · rw [hopen, hclose]
      rfl
  · rw [hopen] at ho
    cases ho

/-- A brace is closed by a brace, and nothing else is. -/
theorem Tok.isBrace_of_closer? {t closer : Tok} (h : t.closer? = some closer) :
    t.isBrace = closer.isBrace := by
  unfold closer? at h
  split at h <;> cases h <;> rfl

/-- The braces of a bracket word are balanced. -/
theorem BracketWord.balanced_braces {run : List Token} (h : BracketWord run) :
    Balanced (braces run) := by
  induction h with
  | nil => rfl
  | @plain t rest ho hc _ ih =>
    have hother : t.tok.isBrace = false := by
      rcases t.tok.brace_cases with htok | htok | hother
      · rw [htok] at ho
        cases ho
      · rw [htok] at hc
        cases hc
      · exact hother
    rw [braces_cons_other hother]
    exact ih
  | @nested o c inner rest hcloser _ _ ihinner ihrest =>
    have hsame := Tok.isBrace_of_closer? hcloser
    obtain ⟨ho, hc⟩ := Tok.isOpening_of_closer? hcloser
    cases hbrace : o.tok.isBrace with
    | true =>
      have hsplit : braces (o :: (inner ++ c :: rest))
          = o :: (braces inner ++ [c]) ++ braces rest := by
        rw [braces_cons hbrace, braces_append, braces_cons (hsame ▸ hbrace)]
        simp
      rw [hsplit]
      exact (ihinner.enclose ho hc).append ihrest
    | false =>
      rw [braces_cons_other hbrace, braces_append, braces_cons_other (hsame ▸ hbrace)]
      exact ihinner.append ihrest

/-- A block is a bracket word exactly if its inside is one. -/
theorem bracketWord_block_iff {lb rb : Token} {inner : List Token}
    (hlb : lb.tok = .op .openBrace) (hrb : rb.tok = .op .closeBrace)
    (hbraces : Balanced (braces inner)) :
    BracketWord (lb :: (inner ++ [rb])) ↔ BracketWord inner := by
  constructor
  · intro h
    generalize hregion : lb :: (inner ++ [rb]) = region at h
    cases h with
    | nil => cases hregion
    | plain ho _ _ =>
      rw [← (List.cons.inj hregion).1, hlb] at ho
      cases ho
    | @nested o c word rest hcloser hword _ =>
      obtain ⟨rfl, hsplit⟩ := List.cons.inj hregion
      rcases List.eq_nil_or_concat rest with rfl | ⟨front, last, rfl⟩
      · rwa [(List.append_inj_left' hsplit rfl)]
      · -- the first brace would be closed inside the block
        rw [hlb] at hcloser
        have hc : c.tok = .op .closeBrace := (Option.some.inj hcloser).symm
        have hinner : inner = word ++ c :: front := by
          have happend : inner ++ [rb] = (word ++ c :: front) ++ [last] := by
            rw [hsplit]
            simp
          exact List.append_inj_left' happend rfl
        rw [hinner, braces_append, braces_cons (by rw [hc]; rfl)] at hbraces
        unfold Balanced at hbraces
        rw [depthAfter?_append, hword.balanced_braces, Option.bind_some,
          depthAfter?_closing_zero (by rw [hc]; rfl)] at hbraces
        cases hbraces
  · intro h
    refine .nested ?_ h .nil
    rw [hlb, hrb]
    rfl

/-! ## Sources -/

/-- The token lies within the span, and is no inserted semicolon at
one of its ends. -/
def Span.Encloses (s : Span) (t : Token) : Prop :=
  s.Covers t ∧ s.start < t.stop ∧ t.start < s.stop

instance (s : Span) (t : Token) : Decidable (s.Encloses t) :=
  inferInstanceAs (Decidable (_ ∧ _))

/-- The tokens of a source that lie in a span. -/
def enclosedTokens (source : String) (s : Span) : List Token :=
  (tokenize source).tokens.filter fun t => s.Encloses t

/-- The span reaches from the first of these tokens of the source to the last,
and if offsets are recorded as they are, these are the tokens that lie in it. -/
structure IsRegion (source : String) (s : Span) (region : List Token) : Prop where
  contiguous : ∃ before behind, (tokenize source).tokens
    = before ++ (region ++ behind)
  spanned : s.Exact region
  enclosed : Text.byteLength source.toList ≤ Span.maxOffset →
    region = enclosedTokens source s

namespace InOrder

/-- Every token stops behind the start of the first one, if that has some width. -/
theorem head_start_lt {run : List Token} {first t : Token} (h : InOrder run)
    (hfirst : run.head? = some first) (hwidth : first.start < first.stop)
    (ht : t ∈ run) : first.start < t.stop := by
  obtain ⟨more, rfl⟩ := List.head?_eq_some_iff.mp hfirst
  rcases List.mem_cons.mp ht with rfl | hmore
  · exact hwidth
  · have hnext := (List.pairwise_cons.mp h.ordered).1 t hmore
    have hle := h.start_le_stop t ht
    omega

/-- Every token starts before the end of the last one, if that has some width. -/
theorem start_lt_getLast {run : List Token} {last t : Token} (h : InOrder run)
    (hlast : run.getLast? = some last) (hwidth : last.start < last.stop)
    (ht : t ∈ run) : t.start < last.stop := by
  obtain ⟨before, rfl⟩ := List.getLast?_eq_some_iff.mp hlast
  rcases List.mem_append.mp ht with hbefore | hmem
  · have hnext := (List.pairwise_append.mp h.ordered).2.2 t hbefore last (by simp)
    have hle := h.start_le_stop t ht
    omega
  · rw [List.mem_singleton.mp hmem]
    exact hwidth

end InOrder

/-- A region that has no semicolons at its ends is found by its span. -/
theorem filter_encloses {before region behind : List Token} {s : Span}
    (hsolid : Grammar.Solid (before ++ (region ++ behind))) (hexact : s.Exact region)
    (hfirst : ∀ t ∈ region.head?, t.tok ≠ .op .semicolon)
    (hlast : ∀ t ∈ region.getLast?, t.tok ≠ .op .semicolon) :
    (before ++ (region ++ behind)).filter (fun t => s.Encloses t) = region := by
  obtain ⟨first, last, hhead, hend, hmem, hmem', rfl⟩ :=
    hsolid.right.left.locatable.eq_of_exact hexact
  have hwidth := hsolid.right.left.width first hmem (hfirst first hhead)
  have hwidth' := hsolid.right.left.width last hmem' (hlast last hend)
  have hinside := hsolid.right.left.locatable.inOrder
  have hordered := List.pairwise_append.mp hsolid.locatable.inOrder.ordered
  have hordered' := List.pairwise_append.mp hsolid.right.locatable.inOrder.ordered
  -- tokens before the region stop where its span starts at the latest, those behind
  -- it start where it stops
  have hbefore : before.filter (fun t => Span.Encloses ⟨first.start, last.stop⟩ t)
      = [] := by
    refine List.filter_eq_nil_iff.mpr fun t ht hkeep => ?_
    have hle : t.stop ≤ first.start :=
      hordered.2.2 t ht first (List.mem_append_left _ hmem)
    obtain ⟨-, hlt, -⟩ := of_decide_eq_true hkeep
    exact absurd hlt (Nat.not_lt.mpr hle)
  have hbehind : behind.filter (fun t => Span.Encloses ⟨first.start, last.stop⟩ t)
      = [] := by
    refine List.filter_eq_nil_iff.mpr fun t ht hkeep => ?_
    have hle : last.stop ≤ t.start := hordered'.2.2 last hmem' t ht
    obtain ⟨-, -, hlt⟩ := of_decide_eq_true hkeep
    exact absurd hlt (Nat.not_lt.mpr hle)
  have hregion : region.filter (fun t => Span.Encloses ⟨first.start, last.stop⟩ t)
      = region := by
    refine List.filter_eq_self.mpr fun t ht => decide_eq_true ?_
    have hstart := hinside.head_start_le hhead ht
    have hstop := hinside.stop_le_getLast hend ht
    exact ⟨⟨hstart, hstop⟩, hinside.head_start_lt hhead hwidth ht,
      hinside.start_lt_getLast hend hwidth' ht⟩
  rw [List.filter_append, List.filter_append, hbefore, hregion, hbehind]
  simp

/-- A body starts and ends with a brace. -/
theorem IsBody.ends {run : List Token} (h : IsBody run) :
    (∀ t ∈ run.head?, t.tok ≠ .op .semicolon) ∧ ∀ t ∈ run.getLast?,
      t.tok ≠ .op .semicolon := by
  cases h with
  | @mk lb rb inner hlb hrb _ =>
    refine ⟨fun t ht => ?_, fun t ht => ?_⟩
    · rw [← Option.some.inj ht, hlb]
      decide
    · have hlast : (lb :: (inner ++ [rb])).getLast? = some rb := by
        simp [List.getLast?_cons]
      rw [← Option.some.inj (hlast.symm.trans ht), hrb]
      decide

/-- An initializer neither starts nor ends with a semicolon. -/
theorem IsInitializer.ends {run : List Token} (h : IsInitializer run) :
    (∀ t ∈ run.head?, t.tok ≠ .op .semicolon) ∧ ∀ t ∈ run.getLast?,
      t.tok ≠ .op .semicolon := by
  refine ⟨fun t ht htok => ?_, fun t ht htok => ?_⟩
  · obtain ⟨rest, rfl⟩ := List.head?_eq_some_iff.mp ht
    exact h.semicolon [] t rest rfl htok rfl
  · obtain ⟨before, rfl⟩ := List.getLast?_eq_some_iff.mp ht
    refine h.semicolon before t [] rfl htok ?_
    have hbalanced : depthAfter? 0 (before ++ [t]) = some 0 := h.balanced
    rw [depthAfter?_append] at hbalanced
    obtain ⟨depth, hbefore, hdepth⟩ := Option.bind_eq_some_iff.mp hbalanced
    rw [depthAfter?_plain (by rw [htok]; rfl) (by rw [htok]; rfl)] at hdepth
    rw [hbefore]
    exact hdepth

/-- Regions of the tokens of a source are regions of the source. -/
theorem isRegion_of_regions {source : String} {P : List Token → Prop}
    {spans : List Span} {s : Span}
    (hends : ∀ run, P run → (∀ t ∈ run.head?, t.tok ≠ .op .semicolon) ∧
      ∀ t ∈ run.getLast?, t.tok ≠ .op .semicolon)
    (h : Regions P spans (tokenize source).tokens) (hs : s ∈ spans) :
    ∃ region, IsRegion source s region ∧ P region := by
  obtain ⟨before, region, behind, htokens, hexact, hregion⟩ := h s hs
  refine ⟨region, ⟨⟨before, behind, htokens⟩, hexact, fun hlength => ?_⟩, hregion⟩
  have hsolid := solid_tokenize hlength
  rw [htokens] at hsolid
  obtain ⟨hfirst, hlast⟩ := hends region hregion
  unfold enclosedTokens
  rw [htokens, filter_encloses hsolid hexact hfirst hlast]

/-- **Bodies and initializers of a source have their tokens in its stream.** -/
theorem regions_of_parseTokens {source : String} {file : SourceFile}
    (h : parseSource source = .ok file) :
    Regions IsBody file.bodies (tokenize source).tokens ∧
    Regions IsInitializer file.initializers (tokenize source).tokens := by
  obtain ⟨hplaced, hordered⟩ := Token.tokenize_placed source
  have horder : InOrder (tokenize source).tokens :=
    ⟨hordered, fun t ht => (hplaced t ht).start_le_stop⟩
  obtain ⟨c', hfile⟩ := parseTokens_eq_ok_iff.mp (parseTokens_of_parseSource h)
  obtain ⟨run, hp, hbodies, hinitializers⟩ := Parser.takes_file_regions hfile horder
  have hrun : (tokenize source).tokens = run ++ c'.rest := hp.rest
  rw [hrun]
  exact ⟨hbodies.before _, hinitializers.before _⟩

/-- The regions of a file are balanced as far as they are counted. A body goes
from a brace to the one that closes it among the braces of the body, and is a
bracket word if and only if all brackets inside are balanced and match in kind.
The brackets of an initializer are balanced, and it is a bracket word if and
only if they match in kind. -/
structure SourceFile.RegionsCounted (source : String) (file : SourceFile) : Prop where
  bodies : ∀ s ∈ file.bodies,
    ∃ lb inner rb, IsRegion source s (lb :: (inner ++ [rb])) ∧
    lb.tok = .op .openBrace ∧
    rb.tok = .op .closeBrace ∧ BracketWord (braces inner) ∧
    (BracketWord (lb :: (inner ++ [rb])) ↔ Balanced inner ∧ KindsMatch inner)
  initializers : ∀ s ∈ file.initializers, ∃ region, IsRegion source s region ∧
    IsInitializer region ∧
    (BracketWord region ↔ KindsMatch region)

/-- **Skipped regions are balanced as far as they are counted.** -/
theorem regions_of_parseSource {source : String} {file : SourceFile}
    (h : parseSource source = .ok file) : file.RegionsCounted source := by
  obtain ⟨hbodies, hinitializers⟩ := regions_of_parseTokens h
  refine ⟨fun s hs => ?_, fun s hs => ?_⟩
  · obtain ⟨region, hregion, hbody⟩ :=
      isRegion_of_regions (fun _ => IsBody.ends) hbodies hs
    obtain ⟨hlb, hrb, hbraces⟩ := hbody
    refine ⟨_, _, _, hregion, hlb, hrb,
      bracketWord_of_kindsMatch hbraces (kindsMatch_braces _), ?_⟩
    rw [bracketWord_block_iff hlb hrb hbraces, bracketWord_iff]
  · obtain ⟨region, hregion, hinitializer⟩ :=
      isRegion_of_regions (fun _ => IsInitializer.ends) hinitializers hs
    refine ⟨region, hregion, hinitializer, ?_⟩
    rw [bracketWord_iff, and_iff_right hinitializer.balanced]

/-- The sample has a body and an initializer. -/
theorem regions_of_parseSource_sampleNested :
    ∃ file, parseSource sampleNested = .ok file ∧ file.bodies.length = 1 ∧
      file.initializers.length = 1 ∧
      file.RegionsCounted sampleNested := by
  have hsample : (parseSource sampleNested).toOption.any
      (fun file => file.bodies.length == 1 && file.initializers.length == 1)
        = true := by decide +kernel
  obtain ⟨file, hfile, hlengths⟩ := exists_ok_of_any hsample
  obtain ⟨hbodies, hinitializers⟩ := Bool.and_eq_true_iff.mp hlengths
  exact ⟨file, hfile, eq_of_beq hbodies, eq_of_beq hinitializers,
    regions_of_parseSource hfile⟩

/-- A body that leaves a parenthesis open. -/
def sampleOpenBody : String :=
  "package p\nfunc f() \x7b ( \x7d\n"

/-- An initializer that closes a parenthesis with a square bracket. -/
def sampleMixedValue : String :=
  "package p\nvar x = (]\n"

/-- Both samples are accepted, and neither region is a bracket word. -/
theorem regions_unmatched :
    (∃ file, parseSource sampleOpenBody = .ok file ∧
      ∃ s ∈ file.bodies, ¬ BracketWord (enclosedTokens sampleOpenBody s)) ∧
    ∃ file, parseSource sampleMixedValue = .ok file ∧
      ∃ s ∈ file.initializers, ¬ BracketWord (enclosedTokens sampleMixedValue s) := by
  have hbody : (parseSource sampleOpenBody).toOption.any
      (fun file => file.bodies.any
        fun s => !decide (BracketWord (enclosedTokens sampleOpenBody s))) = true := by
    decide +kernel
  have hvalue : (parseSource sampleMixedValue).toOption.any
      (fun file => file.initializers.any
        fun s => !decide (BracketWord (enclosedTokens sampleMixedValue s)))
        = true := by
    decide +kernel
  obtain ⟨file, hfile, hany⟩ := exists_ok_of_any hbody
  obtain ⟨s, hs, hnot⟩ := List.any_eq_true.mp hany
  obtain ⟨file', hfile', hany'⟩ := exists_ok_of_any hvalue
  obtain ⟨s', hs', hnot'⟩ := List.any_eq_true.mp hany'
  exact ⟨⟨file, hfile, s, hs, by simpa using hnot⟩, file', hfile', s',
    hs', by simpa using hnot'⟩

end GoInventory
