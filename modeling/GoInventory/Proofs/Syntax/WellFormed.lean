import GoInventory.Proofs.Syntax.Completeness

/-!
# Trees that can be written

A tree of types can hold more than a source can say: an application without
arguments, parameters of which only some have names, a variadic type in the
middle of nowhere. `TypeExpr.WellFormed` says which trees are free of that,
constructor by constructor. Each of them has a spelling, and from any of its
spellings the parser recovers it.
-/

namespace GoInventory

/-- The type of a parameter without the dots of a variadic one. -/
def TypeExpr.withoutDots : TypeExpr → TypeExpr
  | .variadic _ elem => elem
  | t => t

/-- The types that a constraint is made of. -/
def TypeExpr.alternatives : TypeExpr → List TypeExpr
  | .union _ terms => terms.map (·.type)
  | t => [t]

/-- The type can be embedded in a struct: a name, perhaps with arguments,
perhaps behind one star. -/
def TypeExpr.IsEmbeddable : TypeExpr → Prop
  | .named _ | .applied _ _ _ => True
  | .pointer _ (.named _) | .pointer _ (.applied _ _ _) => True
  | _ => False

/-- Parameters or results: all have names or none has. -/
structure AreParams (fields : List (Field TypeExpr)) : Prop where
  names : (∀ f ∈ fields, f.names = []) ∨ ∀ f ∈ fields, f.names ≠ []
  tag : ∀ f ∈ fields, f.tag = none

/-- A member of a struct has names, or can be embedded. -/
def IsMember (f : Field TypeExpr) : Prop :=
  f.names ≠ [] ∨ f.type.IsEmbeddable

/-- An element of an interface: a method, an embedded type, or a union that is
more than a type. -/
inductive IsElement : Field TypeExpr → Prop
  | method {n : Ident} {s s' : Span} {sig : Signature TypeExpr} :
    IsElement ⟨[n], .func s' sig, none, s⟩
  | embedded {t : TypeExpr} {s : Span} : (∀ s' terms, t ≠ .union s' terms) →
    IsElement ⟨[], t, none, s⟩
  | union {s s' : Span} {terms : List (Term TypeExpr)} : terms ≠ [] →
    (∀ t, terms ≠ [⟨false, t⟩]) → IsElement ⟨[], .union s' terms, none, s⟩

/-- The tree is one that a source can say. -/
inductive TypeExpr.WellFormed : TypeExpr → Prop
  | named {n : TypeName} : WellFormed (.named n)
  | applied {s : Span} {base : TypeName} {args : List TypeExpr} : args ≠ [] →
    (∀ a ∈ args, WellFormed a) → WellFormed (.applied s base args)
  | pointer {s : Span} {elem : TypeExpr} : WellFormed elem →
      WellFormed (.pointer s elem)
  | array {s : Span} {length : ArrayLength} {elem : TypeExpr} : WellFormed elem →
    WellFormed (.array s length elem)
  | slice {s : Span} {elem : TypeExpr} : WellFormed elem → WellFormed (.slice s elem)
  | map {s : Span} {key value : TypeExpr} : WellFormed key → WellFormed value →
    WellFormed (.map s key value)
  | chan {s : Span} {dir : ChanDir} {elem : TypeExpr} : WellFormed elem →
    (dir = .both → ∀ s' t, elem ≠ .chan s' .receive t) → WellFormed (.chan s dir elem)
  | func {s s' : Span} {params results : List (Field TypeExpr)} : AreParams params →
    AreParams results → (∀ f ∈ params, WellFormed f.type.withoutDots) →
    (∀ f ∈ results, WellFormed f.type.withoutDots) →
      WellFormed (.func s ⟨params, results, s'⟩)
  | struct {s : Span} {fields : List (Field TypeExpr)} : (∀ f ∈ fields, IsMember f) →
    (∀ f ∈ fields, WellFormed f.type) → WellFormed (.struct s fields)
  | interface {s : Span} {elems : List (Field TypeExpr)} :
      (∀ f ∈ elems, IsElement f) →
    (∀ f ∈ elems, ∀ t ∈ f.type.alternatives, WellFormed t) →
      WellFormed (.interface s elems)
  | paren {s : Span} {elem : TypeExpr} : WellFormed elem → WellFormed (.paren s elem)

namespace Grammar

/-! ## Every such tree has a spelling -/

/-- A token in no particular place. -/
def loose (tok : Tok) : Token :=
  ⟨0, tok, 0⟩

section Lists

variable {α : Type} {item : α → List Token → Prop}

/-- A list can be spelled if each of its items can. -/
theorem exists_listed (separator close : Operator) {as : List α}
    (h : ∀ a ∈ as, ∃ run, item a run) :
    ∃ run, Listed item separator close as run := by
  induction as with
  | nil => exact ⟨[loose (.op close)], .none rfl⟩
  | cons a as ih =>
    obtain ⟨run, ha⟩ := h a List.mem_cons_self
    obtain ⟨more, has⟩ := ih fun b hb => h b (List.mem_cons_of_mem a hb)
    exact ⟨run ++ loose (.op separator) :: more, .cons ha rfl has⟩

/-- Items that are only separated can be spelled if there is one. -/
theorem exists_separated (separator : Operator) {as : List α} (hne : as ≠ [])
    (h : ∀ a ∈ as, ∃ run, item a run) : ∃ run, Separated item separator as run := by
  induction as with
  | nil => exact absurd rfl hne
  | cons a as ih =>
    obtain ⟨run, ha⟩ := h a List.mem_cons_self
    cases as with
    | nil => exact ⟨run, .one ha⟩
    | cons b as =>
      obtain ⟨more, has⟩ :=
        ih (List.cons_ne_nil b as) fun b' hb => h b' (List.mem_cons_of_mem a hb)
      exact ⟨run ++ loose (.op separator) :: more, .cons ha rfl has⟩

end Lists

theorem isIdent_loose (n : Ident) : IsIdent .anywhere n (loose (.ident n.name)) :=
  ⟨rfl, trivial⟩

theorem exists_names {names : List Ident} (hne : names ≠ []) :
    ∃ run, Separated (IdentRun .anywhere) .comma names run :=
  exists_separated _ hne fun n _ => ⟨_, _, rfl, isIdent_loose n⟩

theorem exists_tag (tag : Option StringLit) : ∃ run, Tag .anywhere tag run := by
  cases tag with
  | none => exact ⟨[], .none⟩
  | some lit =>
    obtain ⟨kind, text, s⟩ := lit
    cases kind with
    | raw => exact ⟨[loose (.literal .rawString text)], .some (.raw rfl trivial)⟩
    | interpreted =>
      exact ⟨[loose (.literal .string text)], .some (.interpreted rfl trivial)⟩

/-- Every name can be spelled. -/
theorem exists_name (n : TypeName) : ∃ run e, Name .anywhere n run e := by
  cases n with
  | plain n => exact ⟨_, _, .plain (isIdent_loose n)⟩
  | qualified s pkg n =>
    exact ⟨[_, loose (.op .dot), _], _,
      .qualified (isIdent_loose pkg) rfl (isIdent_loose n) trivial⟩

/-- Every length can be spelled, understood or not. -/
theorem exists_bound (length : ArrayLength) : ∃ run, Bound .anywhere length run := by
  cases length with
  | ellipsis => exact ⟨[loose (.op .ellipsis)], .ellipsis rfl⟩
  | expr length =>
    cases length with
    | ident n =>
      exact ⟨[loose (.ident n.name)],
        .expr (by simp [loose]) rfl (.ident (isIdent_loose n))⟩
    | selector s pkg sel =>
      exact ⟨[loose (.ident pkg.name), loose (.op .dot), loose (.ident sel.name)],
        .expr (by simp [loose]) rfl
          (.selector (isIdent_loose pkg) rfl (isIdent_loose sel) trivial)⟩
    | literal s kind text =>
      exact ⟨[loose (.literal kind text)],
        .expr (by simp [loose]) rfl (.literal rfl trivial)⟩
    | other s =>
      refine ⟨[loose (.op .star)],
        .expr (by simp [loose]) rfl (.other ⟨?_, ?_⟩ trivial)⟩
      · intro t ht
        cases ht
        rfl
      · intro t dot u pkg sel h
        cases h

/-- A parameter can be spelled if its type can, without its ellipsis. -/
theorem exists_paramType {t : TypeExpr}
    (h : ∃ run e, Spells .anywhere t.withoutDots run e) :
    ∃ run, ParamType .anywhere (Spells .anywhere) t run := by
  obtain ⟨run, e, h⟩ := h
  by_cases hdots : ∃ s elem, t = .variadic s elem
  · obtain ⟨s, elem, rfl⟩ := hdots
    exact ⟨loose (.op .ellipsis) :: run, .variadic rfl ⟨e, h⟩ trivial⟩
  · have ht : t.withoutDots = t := by
      cases t with
      | variadic s elem => exact absurd ⟨s, elem, rfl⟩ hdots
      | _ => rfl
    rw [ht] at h
    exact ⟨run, .plain ⟨e, h⟩⟩

/-- Parameters can be spelled if they are grouped as the parser groups them. -/
theorem exists_params {fields : List (Field TypeExpr)} (hp : AreParams fields)
    (h : ∀ f ∈ fields, ∃ run e, Spells .anywhere f.type.withoutDots run e) :
    ∃ run, Params .anywhere (Spells .anywhere) fields run := by
  rcases hp.names with hnames | hnames
  · obtain ⟨run, hrun⟩ :
      ∃ run, Listed (UnnamedParam .anywhere (Spells .anywhere)) .comma
        .closeParen fields run := by
      refine exists_listed _ _ fun f hf => ?_
      obtain ⟨run, hrun⟩ := exists_paramType (h f hf)
      have htag := hp.tag f hf
      have hnone := hnames f hf
      obtain ⟨names, t, tag, s⟩ := f
      subst htag hnone
      exact ⟨run, .mk hrun trivial⟩
    exact ⟨loose (.op .openParen) :: run, .unnamed rfl hrun⟩
  · obtain ⟨run, hrun⟩ :
      ∃ run, Listed (NamedParams .anywhere (Spells .anywhere)) .comma
        .closeParen fields run := by
      refine exists_listed _ _ fun f hf => ?_
      obtain ⟨run, hrun⟩ := exists_paramType (h f hf)
      obtain ⟨nameRun, hnameRun⟩ := exists_names (hnames f hf)
      have htag := hp.tag f hf
      obtain ⟨names, t, tag, s⟩ := f
      subst htag
      exact ⟨nameRun ++ run, .mk hnameRun hrun trivial⟩
    exact ⟨loose (.op .openParen) :: run, .named rfl hrun⟩

/-- A signature can be spelled if its parameters and results can. -/
theorem exists_sig {params results : List (Field TypeExpr)} {s : Span}
    (hp : AreParams params) (hr : AreParams results)
    (hparams : ∀ f ∈ params, ∃ run e, Spells .anywhere f.type.withoutDots run e)
    (hresults : ∀ f ∈ results, ∃ run e, Spells .anywhere f.type.withoutDots run e) :
    ∃ run e, Sig .anywhere (Spells .anywhere) ⟨params, results, s⟩ run e := by
  obtain ⟨paramRun, hparamRun⟩ := exists_params hp hparams
  obtain ⟨resultRun, hresultRun⟩ := exists_params hr hresults
  exact ⟨paramRun ++ resultRun, .closed, .mk hparamRun (.listed hresultRun) trivial⟩

/-- A type that can be embedded starts the way embedded members do. -/
theorem startsEmbedded_of_announcedBy {t : TypeExpr} {first : Token}
    (h : t.IsEmbeddable) (hfirst : AnnouncedBy t first.tok) :
    StartsEmbedded first := by
  cases t with
  | named | applied => exact Or.inr hfirst
  | pointer => exact Or.inl hfirst
  | _ => exact h.elim

/-- A member can be spelled if its type can, and stands where it may. -/
theorem exists_member {f : Field TypeExpr} (hf : IsMember f)
    (h : ∃ run e, Spells .anywhere f.type run e) :
    ∃ run, MemberRun .anywhere (Spells .anywhere) f run := by
  obtain ⟨run, e, h⟩ := h
  obtain ⟨names, t, tag, s⟩ := f
  obtain ⟨tagRun, htag⟩ := exists_tag tag
  by_cases hne : names = []
  · subst hne
    have hembed : t.IsEmbeddable := hf.resolve_left fun hnames => hnames rfl
    obtain ⟨first, more, rfl, hfirst⟩ := (spells_iff.mp h).announced
    exact ⟨first :: more ++ tagRun,
      .embedded (startsEmbedded_of_announcedBy hembed hfirst) ⟨e, h⟩ htag trivial⟩
  · obtain ⟨nameRun, hnames⟩ := exists_names hne
    exact ⟨nameRun ++ run ++ tagRun, .named hnames ⟨e, h⟩ htag trivial⟩

theorem exists_term {tm : Term TypeExpr} (h : ∃ run e, Spells .anywhere tm.type run e) :
    ∃ run, TermRun (Spells .anywhere) tm run := by
  obtain ⟨run, e, h⟩ := h
  obtain ⟨tilde, t⟩ := tm
  cases tilde with
  | false => exact ⟨run, .plain ⟨e, h⟩⟩
  | true => exact ⟨loose (.op .tilde) :: run, .tilde rfl ⟨e, h⟩⟩

/-- An element can be spelled if it is a method or a constraint. -/
theorem exists_element {f : Field TypeExpr} (hf : IsElement f)
    (h : ∀ t ∈ f.type.alternatives, ∃ run e, Spells .anywhere t run e) :
    ∃ run, ElementRun .anywhere (Spells .anywhere) f run := by
  cases hf with
  | @method n s s' sig =>
    -- a method is spelled like its function type, with the name in place
    -- of the keyword
    obtain ⟨run, e, hrun⟩ := h (.func s' sig) (List.mem_singleton.mpr rfl)
    cases spells_iff.mp hrun with
    | func _ hsig _ => exact ⟨_, .method (isIdent_loose n) hsig trivial trivial⟩
  | @embedded t s hunion =>
    have halt : t ∈ t.alternatives := by
      cases t with
      | union s' terms => exact absurd rfl (hunion s' terms)
      | _ => exact List.mem_singleton.mpr rfl
    obtain ⟨run, e, hrun⟩ := h t halt
    exact ⟨run, .embedded (.plain ⟨e, hrun⟩) trivial⟩
  | union hne hterms =>
    obtain ⟨run, hrun⟩ := exists_separated .pipe hne fun tm htm =>
      exists_term (h tm.type (List.mem_map_of_mem htm))
    exact ⟨run, .embedded (.union hterms hrun trivial) trivial⟩

/-- **Every well-formed tree has a spelling.** -/
theorem exists_spells {t : TypeExpr} (h : t.WellFormed) :
    ∃ run e, Spells .anywhere t run e := by
  induction h with
  | @named n =>
    obtain ⟨run, e, hname⟩ := exists_name n
    exact ⟨run, e, spells_iff.mpr (.named hname)⟩
  | @applied s base args hne _ ih =>
    obtain ⟨run, e, hbase⟩ := exists_name base
    obtain ⟨more, hargs⟩ :
      ∃ more, Listed (Inner (Spells .anywhere)) .comma .closeBracket args more :=
      exists_listed _ _ ih
    exact ⟨run ++ loose (.op .openBracket) :: more, .closed,
      spells_iff.mpr (.applied hbase rfl hne hargs trivial)⟩
  | pointer _ ih =>
    obtain ⟨run, e, helem⟩ := ih
    exact ⟨loose (.op .star) :: run, e, spells_iff.mpr (.pointer rfl helem trivial)⟩
  | @array s length elem _ ih =>
    obtain ⟨run, e, helem⟩ := ih
    obtain ⟨lengthRun, hlength⟩ := exists_bound length
    exact ⟨loose (.op .openBracket) :: lengthRun
      ++ loose (.op .closeBracket) :: run, e,
      spells_iff.mpr (.array rfl hlength rfl helem trivial)⟩
  | slice _ ih =>
    obtain ⟨run, e, helem⟩ := ih
    exact ⟨loose (.op .openBracket) :: loose (.op .closeBracket) :: run, e,
      spells_iff.mpr (.slice rfl rfl helem trivial)⟩
  | map _ _ ihkey ihvalue =>
    obtain ⟨keyRun, e', hkey⟩ := ihkey
    obtain ⟨run, e, hvalue⟩ := ihvalue
    exact ⟨loose (.keyword .map) :: loose (.op .openBracket) :: keyRun
        ++ loose (.op .closeBracket) :: run, e,
      spells_iff.mpr (.map rfl rfl ⟨e', hkey⟩ rfl hvalue trivial)⟩
  | @chan s dir elem _ hdir ih =>
    obtain ⟨run, e, helem⟩ := ih
    cases dir with
    | both =>
      -- an arrow behind the keyword would give the channel a direction
      obtain ⟨first, more, rfl, hfirst⟩ := (spells_iff.mp helem).announced
      have harrow : first.tok ≠ .op .arrow := by
        intro heq
        rw [heq] at hfirst
        obtain ⟨s', elem', rfl⟩ := eq_of_announcedBy_arrow hfirst
        exact absurd rfl (hdir rfl s' elem')
      exact ⟨loose (.keyword .chan) :: first :: more, e,
        spells_iff.mpr (.chan rfl harrow helem trivial)⟩
    | send =>
      exact ⟨loose (.keyword .chan) :: loose (.op .arrow) :: run, e,
        spells_iff.mpr (.send rfl rfl helem trivial)⟩
    | receive =>
      exact ⟨loose (.op .arrow) :: loose (.keyword .chan) :: run, e,
        spells_iff.mpr (.receive rfl rfl helem trivial)⟩
  | func hp hr _ _ ihp ihr =>
    obtain ⟨run, e, hsig⟩ := exists_sig hp hr ihp ihr
    exact ⟨loose (.keyword .func) :: run, e, spells_iff.mpr (.func rfl hsig trivial)⟩
  | struct hfields _ ih =>
    obtain ⟨run, hrun⟩ := exists_listed .semicolon .closeBrace fun f hf =>
      exists_member (hfields f hf) (ih f hf)
    exact ⟨loose (.keyword .struct) :: loose (.op .openBrace) :: run, .closed,
      spells_iff.mpr (.struct rfl rfl hrun trivial)⟩
  | interface helems _ ih =>
    obtain ⟨run, hrun⟩ := exists_listed .semicolon .closeBrace fun f hf =>
      exists_element (helems f hf) (ih f hf)
    exact ⟨loose (.keyword .interface) :: loose (.op .openBrace) :: run, .closed,
      spells_iff.mpr (.interface rfl rfl hrun trivial)⟩
  | paren _ ih =>
    obtain ⟨run, e, helem⟩ := ih
    exact ⟨loose (.op .openParen) :: run ++ [loose (.op .closeParen)], .closed,
      spells_iff.mpr (.paren rfl ⟨e, helem⟩ rfl trivial)⟩

end Grammar

open Grammar

/-- **The parser recovers every tree from its tokens.** A well-formed tree has
spellings, and wherever the tokens of one stand ahead, with something behind
them that does not go on with the type, the parser of types takes exactly these
tokens and gives the tree back, up to spans. -/
theorem Parser.typeExpr_recovers {t : TypeExpr} (ht : t.WellFormed) :
    (∃ run e, Spells .anywhere t run e) ∧
    ∀ {run rest : List Token} {e : Ending} {c : Cursor}, Spells .anywhere t run e →
      c.rest = run ++ rest → e.Stops rest →
      ∃ t' c', (typeExpr : Parser TypeExpr) c = .ok (t', c') ∧
        t'.eraseSpans = t.eraseSpans ∧ c'.rest = rest := by
  refine ⟨exists_spells ht, ?_⟩
  intro run rest e c hspells hc hstop
  obtain ⟨t', c', hok, hrest, ht'⟩ := readsTypes_typeExpr hspells hc hstop
  exact ⟨t', c', hok, ht', hrest⟩

/-- The type `func(a, b []K, v ...M) (chan<- K)`, without places. -/
def sampleFunc : TypeExpr :=
  let name (text : String) : Ident := ⟨text, ⟨0, 0⟩⟩
  let plain (text : String) : TypeExpr := .named (.plain (name text))
  .func ⟨0, 0⟩
    ⟨[⟨[name "a", name "b"], .slice ⟨0, 0⟩ (plain "K"), none, ⟨0, 0⟩⟩,
      ⟨[name "v"], .variadic ⟨0, 0⟩ (plain "M"), none, ⟨0, 0⟩⟩],
      [⟨[], .chan ⟨0, 0⟩ .send (plain "K"), none, ⟨0, 0⟩⟩], ⟨0, 0⟩⟩

theorem sampleFunc_wellFormed : sampleFunc.WellFormed := by
  refine .func ⟨Or.inr (by simp), by simp⟩ ⟨Or.inl (by simp), by simp⟩ ?_ ?_
  · intro f hf
    rcases List.mem_cons.mp hf with rfl | hf
    · exact .slice .named
    · rw [List.mem_singleton] at hf
      subst hf
      exact .named
  · intro f hf
    rw [List.mem_singleton] at hf
    subst hf
    exact .chan .named nofun

/-- The tokens of `sampleFunc`, group by group. -/
def sampleFuncRun : List Token :=
  loose (.keyword .func) :: (loose (.op .openParen) ::
    ([loose (.ident "a")] ++ loose (.op .comma) :: [loose (.ident "b")]
        ++ [loose (.op .openBracket), loose (.op .closeBracket), loose (.ident "K")]
      ++ loose (.op .comma) ::
        ([loose (.ident "v")] ++ [loose (.op .ellipsis), loose (.ident "M")]
          ++ [loose (.op .closeParen)]))
    ++ loose (.op .openParen) ::
      ([loose (.keyword .chan), loose (.op .arrow), loose (.ident "K")]
        ++ [loose (.op .closeParen)]))

theorem spells_sampleFunc : Spells .anywhere sampleFunc sampleFuncRun .closed := by
  have hname : ∀ text, Spells .anywhere (.named (.plain ⟨text, ⟨0, 0⟩⟩))
      [loose (.ident text)] .name :=
    fun text => spells_iff.mpr (.named (.plain ⟨rfl, trivial⟩))
  have hident : ∀ text, IdentRun .anywhere ⟨text, ⟨0, 0⟩⟩ [loose (.ident text)] :=
    fun text => ⟨_, rfl, rfl, trivial⟩
  have hslice : Spells .anywhere (.slice ⟨0, 0⟩ (.named (.plain ⟨"K", ⟨0, 0⟩⟩)))
      [loose (.op .openBracket), loose (.op .closeBracket),
        loose (.ident "K")] .name :=
    spells_iff.mpr (.slice rfl rfl (hname "K") trivial)
  have hchan : Spells .anywhere (.chan ⟨0, 0⟩ .send (.named (.plain ⟨"K", ⟨0, 0⟩⟩)))
      [loose (.keyword .chan), loose (.op .arrow), loose (.ident "K")] .name :=
    spells_iff.mpr (.send rfl rfl (hname "K") trivial)
  refine spells_iff.mpr
    (.func rfl (.mk (.named rfl ?_) (.listed (.unnamed rfl ?_)) trivial) trivial)
  · refine .cons (.mk ?_ (.plain ⟨_, hslice⟩) trivial) rfl
      (.last (.mk ?_ ?_ trivial) rfl)
    · exact .cons (hident "a") rfl (.one (hident "b"))
    · exact .one (hident "v")
    · exact .variadic rfl ⟨_, hname "M"⟩ trivial
  · exact .last (.mk (.plain ⟨_, hchan⟩) trivial) rfl

/-- The tokens of the type are read before a line break. -/
theorem Parser.typeExpr_recovers_sampleFunc :
    sampleFunc.WellFormed ∧ Spells .anywhere sampleFunc sampleFuncRun .closed ∧
    ∃ t' c', (typeExpr : Parser TypeExpr)
      (.start (sampleFuncRun ++ [Token.insertedSemicolon 0]) 0) = .ok (t', c') ∧
      t'.eraseSpans = sampleFunc.eraseSpans ∧ c'.rest = [Token.insertedSemicolon 0] :=
  ⟨sampleFunc_wellFormed, spells_sampleFunc,
    (typeExpr_recovers sampleFunc_wellFormed).2 spells_sampleFunc rfl fun _ _ => rfl⟩

end GoInventory
