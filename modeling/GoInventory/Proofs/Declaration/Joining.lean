import GoInventory.Proofs.Declaration.Offsets
import GoInventory.Proofs.Syntax.Accounting
import GoInventory.Proofs.Syntax.Joining

/-!
# Files one after the other

Declarations are read without regard to what follows. If a source is accepted
and its last token is a semicolon, then declarations can be written behind it,
on a new line, and they are read as they are behind a package clause: the file
gets them behind its own declarations, which stay where they are, and theirs are
moved with the text (`parseSource_join`).

Everything that an inventory shows of the longer file follows from that
(`SourceFile.Joins`): what it declares, the members of its types, and the texts
of the types are those of the two files, one after the other.
-/

namespace GoInventory

/-! ## Two files in one -/

/-- The members of all types of this name. -/
def SourceFile.membersOf (typeName : String) (file : SourceFile) : List Member :=
  file.declarations.flatMap (·.membersOf typeName)

/-- The file is made of two others: it is the first one with the declarations of
the second behind its own, where the offsets of the second are mapped. -/
structure SourceFile.Joins (g : Nat → Nat) (file part joined : SourceFile) :
  Prop where
  package : joined.package = file.package
  decls : joined.decls = file.decls ++ part.decls.map (Decl.mapOffsets g)
  declarations : joined.declarations
    = file.declarations ++ part.declarations.map (Declaration.mapOffsets g)
  members : ∀ typeName, joined.membersOf typeName
    = file.membersOf typeName ++ (part.membersOf typeName).map (Member.mapOffsets g)
  values : ∀ typeName columns, (joined.membersOf typeName).map (Column.values columns)
    = (file.membersOf typeName).map (Column.values columns)
      ++ (part.membersOf typeName).map
        fun m => (Column.values columns m).mapError (·.mapOffsets g)
  texts : joined.rootTypes.map TypeExpr.render
    = file.rootTypes.map TypeExpr.render
      ++ part.rootTypes.map fun t => t.render.mapError (·.mapOffsets g)

/-- What is shown of a file comes from its declarations one by one. -/
theorem SourceFile.joins_of_decls {g : Nat → Nat} {file part joined : SourceFile}
    (hpackage : joined.package = file.package)
    (hdecls : joined.decls = file.decls ++ part.decls.map (Decl.mapOffsets g)) :
    Joins g file part joined := by
  have hdeclarations : joined.declarations
      = file.declarations ++ part.declarations.map (Declaration.mapOffsets g) := by
    unfold declarations
    rw [hdecls, List.flatMap_append, List.flatMap_map, List.map_flatMap]
    simp only [Decl.declarations_mapOffsets]
  have hmembers : ∀ typeName, joined.membersOf typeName
      = file.membersOf typeName ++ (part.membersOf typeName).map
        (Member.mapOffsets g) := by
    intro typeName
    unfold membersOf
    rw [hdeclarations, List.flatMap_append, List.flatMap_map, List.map_flatMap]
    simp only [Declaration.membersOf_mapOffsets]
  refine ⟨hpackage, hdecls, hdeclarations, hmembers, fun typeName columns => ?_, ?_⟩
  · rw [hmembers, List.map_append, List.map_map]
    simp only [Function.comp_def, Column.values_mapOffsets]
  · have hroots : joined.rootTypes
        = file.rootTypes ++ part.rootTypes.map (TypeExpr.mapOffsets g) := by
      unfold rootTypes
      rw [hdecls, List.flatMap_append, List.flatMap_map, List.map_flatMap]
      simp only [Decl.rootTypes_mapOffsets]
    rw [hroots, List.map_append, List.map_map]
    simp only [Function.comp_def, TypeExpr.render_mapOffsets]

/-! ## The tokens -/

open Lexeme

/-- The tokens of the line `package p`. -/
def packageTokens : List Token :=
  [⟨0, .keyword .package, 7⟩, ⟨8, .ident "p", 9⟩, .insertedSemicolon 9]

/-- The tokens behind the line `package p` are those behind another source, up
to their offsets. -/
theorem tokens_behind {source more : String} {k : Nat}
    (hsource : (tokenize source).diagnostics = [])
    (hmore : (tokenize ("package p\n" ++ more)).diagnostics = [])
    (hk : k + 9 = Text.byteLength source.toList) :
    ∃ behind, (tokenize ("package p\n" ++ more)).tokens = packageTokens ++ behind ∧
      (tokenize (source ++ "\n" ++ more)).tokens
        = (tokenize source).tokens ++ behind.map (Token.mapOffsets (· + k)) ∧
      (tokenize (source ++ "\n" ++ more)).diagnostics = [] := by
  have hpackage : tokenize "package p" = ⟨packageTokens, []⟩ := by decide +kernel
  have hread : readings false 0 (cut ("package p\n" ++ more).toList)
      = readings false 0 (cut "package p".toList)
        ++ readings false 10 (cut more.toList) :=
    readings_joined_lines (a := "package p") (by rw [hpackage]) more
  -- the byte order mark is none in either place
  have hjoined : readings false 0 (cut (source ++ "\n" ++ more).toList)
      = readings false 0 (cut source.toList)
        ++ (readings false 10 (cut more.toList)).map
          (Reading.mapOffsets (· + k)) := by
    rw [readings_joined_lines hsource, ← readings_add k _ _ _ (fun _ hl => hl)
      fun _ _ _ => Nat.succ_pos 9,
      ← hk, Nat.add_comm 10, Nat.add_assoc]
  have hquiet : ∀ r ∈ readings false 10 (cut more.toList), r.fault? = none := by
    intro r hr
    refine fault?_of_diagnostics hmore r ?_
    rw [hread]
    exact List.mem_append_right _ hr
  refine ⟨(readings false 10 (cut more.toList)).map (·.token), ?_, ?_, ?_⟩
  · show (readings false 0 (cut ("package p\n" ++ more).toList)).map (·.token) = _
    rw [hread, List.map_append]
    exact congrArg (· ++ _) (congrArg Tokenized.tokens hpackage)
  · show (readings false 0 (cut (source ++ "\n" ++ more).toList)).map (·.token) = _
    rw [hjoined, List.map_append, List.map_map, List.map_map]
    rfl
  · show (readings false 0 (cut (source ++ "\n" ++ more).toList)).filterMap
      (·.diagnostic?) = []
    rw [hjoined, List.filterMap_append, List.append_eq_nil_iff]
    refine ⟨hsource, List.filterMap_eq_nil_iff.mpr fun r hr => ?_⟩
    obtain ⟨unmoved, hmem, rfl⟩ := List.mem_map.mp hr
    exact Option.map_eq_none_iff.mpr (hquiet unmoved hmem)

/-- A source that is accepted has at least the length of a package clause: the
keyword, a character between it and the name, and the name. -/
theorem nine_le_byteLength {source : String} {file : SourceFile}
    (h : parseSource source = .ok file) : 9 ≤ Text.byteLength source.toList := by
  obtain ⟨horigin, hordered⟩ := Token.tokenize_origin source
  have hrun : Grammar.FileRun .anywhere file (tokenize source).tokens :=
    fileRun_of_parseTokens (parseTokens_of_parseSource h) trivial
  generalize htokens : (tokenize source).tokens = tokens at hrun
  cases hrun with
  | @mk package decls kw t before behind run _ hkw ht _ _ =>
    rw [htokens] at horigin hordered
    have hmem : ∀ u, u = kw ∨ u = t → u.Origin source.toList := by
      intro u hu
      refine horigin u (List.mem_append_right _ ?_)
      rcases hu with rfl | rfl
      · exact List.mem_cons_self
      · exact List.mem_cons_of_mem _ List.mem_cons_self
    have horiginKw := hmem kw (Or.inl rfl)
    have horiginName := hmem t (Or.inr rfl)
    have hnext : kw.stop ≤ t.start :=
      (List.pairwise_cons.mp (List.pairwise_append.mp hordered).2.1).1 t
        List.mem_cons_self
    have hapart := horiginKw.keyword_lt_ident horiginName hkw ht.1 hnext
    have hstop := (horiginKw.of_keyword hkw).1
    have hname := (horiginName.of_ident ht.1).1
    have hend := horiginName.placed.stop_le
    have hlength : Text.byteLength Keyword.package.spelling.toList = 7 := by decide
    omega

/-! ## The declarations -/

namespace Parser

/-- The declarations behind the line `package p` can be read in another place. -/
theorem declares_behind {behind : List Token} {length k : Nat} {f : SourceFile}
    (h : parseTokens (packageTokens ++ behind) length = .ok f)
    (hplaced : ∀ t ∈ packageTokens ++ behind, t.start ≤ length ∧ t.stop ≤ length)
    (hlength : length + k ≤ Span.maxOffset) (stop : Nat) :
    Declares ⟨behind.map (Token.mapOffsets (· + k)), stop, length + k⟩
      (f.decls.map (Decl.mapOffsets (· + k))) := by
  obtain ⟨c', hopens, hdecls⟩ := file_eq_ok_iff.mp (parseTokens_eq_ok_iff.mp h)
  -- the package clause is passed
  have hc' : c' = ⟨behind, 9, length⟩ := by
    obtain ⟨hsemi, hkw, hname, hend⟩ := hopens
    have hhead : ∀ t ∈ (Cursor.start (packageTokens ++ behind) length).rest.head?,
        t.tok ≠ .op .semicolon := by
      intro t ht
      cases ht
      nofun
    rw [semicolons_of_head hhead] at hsemi
    cases hsemi
    cases hkw
    generalize f.package = name at hname
    cases hname
    cases hend
    rfl
  rw [hc'] at hdecls
  have hadmits : Move.Admits ⟨k, [], length + k⟩ ⟨behind, 9, length⟩ := by
    refine ⟨fun t ht => ?_, ?_, Or.inl ⟨rfl, rfl, hlength⟩⟩
    · obtain ⟨hstart, hstop⟩ := hplaced t (List.mem_append_right _ ht)
      dsimp only
      omega
    · have hnine : 9 ≤ length :=
        (hplaced ⟨8, .ident "p", 9⟩ (by simp [packageTokens])).2
      dsimp only
      omega
  have hmoved := hdecls.move (Or.inr hadmits) fun stop => Declares.done rfl
  have hplace := hmoved.lastStop stop
  simpa only [Move.cursor, List.append_nil] using hplace

/-- A file that ends with a semicolon takes the declarations that follow it. -/
theorem parseTokens_append {tokens tail : List Token} {length length' : Nat}
    {f : SourceFile} {es : List Decl} (h : parseTokens tokens length = .ok f)
    (hlast : tokens.getLast?.map (·.tok) = some (.op .semicolon))
    (hplaced : ∀ t ∈ tokens, t.start ≤ Span.maxOffset ∧ t.stop ≤ Span.maxOffset)
    (htail : ∀ stop, Declares ⟨tail, stop, length'⟩ es) :
    parseTokens (tokens ++ tail) length' = .ok ⟨f.package, f.decls ++ es⟩ := by
  obtain ⟨c', hfile⟩ := parseTokens_eq_ok_iff.mp h
  obtain ⟨last, hlast, hsemi⟩ := Option.map_eq_some_iff.mp hlast
  have hadmits : Move.Admits ⟨0, tail, length'⟩ (.start tokens length) :=
    ⟨hplaced, Nat.zero_le _, Or.inr ⟨last, hlast, hsemi⟩⟩
  have hcursor : Move.cursor ⟨0, tail, length'⟩ (.start tokens length)
      = .start (tokens ++ tail) length' := by
    have hmap : tokens.map (Token.mapOffsets (· + 0)) = tokens := List.map_id tokens
    unfold Move.cursor Cursor.start
    rw [hmap]
    rfl
  have hdecls : f.decls.map (Decl.mapOffsets (· + 0)) = f.decls := by
    rw [show (fun n : Nat => n + 0) = id from rfl, Decl.mapOffsets_id, List.map_id]
  obtain ⟨d, hjoined⟩ := file_moves hadmits hfile htail
  rw [hcursor, hdecls] at hjoined
  exact parseTokens_eq_ok_iff.mpr ⟨d, hjoined⟩

end Parser

/-- **Declarations are read without regard to what follows.** A source that ends
with a semicolon and a text that is accepted behind a package clause are
accepted one after the other, with a line break between them. The file has the
package and the declarations of the first, as they are, and then those of the
second, moved by the length of the first less that of the package clause. -/
theorem parseSource_join {source more : String} {file part : SourceFile}
    (hfile : parseSource source = .ok file)
    (hlast : (tokenize source).tokens.getLast?.map (·.tok) = some (.op .semicolon))
    (hpart : parseSource ("package p\n" ++ more) = .ok part)
    (hlength : Text.byteLength source.toList + Text.byteLength more.toList
      < Span.maxOffset - 10) :
    ∃ joined k, k + 9 = Text.byteLength source.toList ∧
      parseSource (source ++ "\n" ++ more) = .ok joined ∧
      SourceFile.Joins (· + k) file part joined := by
  obtain ⟨k, hk⟩ := Nat.exists_eq_add_of_le' (nine_le_byteLength hfile)
  obtain ⟨hquiet, htokens⟩ := parseSource_eq_ok_iff.mp hfile
  obtain ⟨hquiet', htokens'⟩ := parseSource_eq_ok_iff.mp hpart
  obtain ⟨behind, hbehind, hjoined, hnone⟩ := tokens_behind hquiet hquiet' hk.symm
  have hlength' : Text.byteLength ("package p\n" ++ more).toList
      = 10 + Text.byteLength more.toList := by
    rw [String.toList_append, Text.byteLength_append]
    rfl
  have hlengths : Text.byteLength (source ++ "\n" ++ more).toList
      = Text.byteLength ("package p\n" ++ more).toList + k := by
    rw [hlength', String.toList_append, String.toList_append, Text.byteLength_append,
      Text.byteLength_append, hk, show Text.byteLength "\n".toList = 1 from rfl]
    omega
  have hplaced : ∀ (text : String), ∀ t ∈ (tokenize text).tokens,
      t.start ≤ Text.byteLength text.toList ∧
        t.stop ≤ Text.byteLength text.toList := by
    intro text t ht
    obtain ⟨hle, hstop, -, -⟩ := (Token.tokenize_placed text).1 t ht
    exact ⟨Nat.le_trans hle hstop, hstop⟩
  have htail := Parser.declares_behind (k := k) (hbehind ▸ htokens')
    (hbehind ▸ hplaced ("package p\n" ++ more))
    (by omega)
  have hbounds : ∀ t ∈ (tokenize source).tokens,
      t.start ≤ Span.maxOffset ∧ t.stop ≤ Span.maxOffset := by
    intro t ht
    obtain ⟨hstart, hstop⟩ := hplaced source t ht
    omega
  have hparse := Parser.parseTokens_append htokens hlast hbounds htail
  rw [← hjoined, ← hlengths] at hparse
  exact ⟨_, k, hk.symm, parseSource_eq_ok_iff.mpr ⟨hnone, hparse⟩,
    SourceFile.joins_of_decls rfl rfl⟩

/-- A file with a comment at its end. -/
def sampleHead : String :=
  "package p\ntype T struct \x7b a, b int \x7d // done"

/-- Declarations to be read behind it. -/
def sampleTail : String :=
  "func (t T) f(n ...T) \x7b return \x7d\nvar x [2]T"

/-- The declarations of the second sample are read behind the type of
the first one. -/
theorem parseSource_join_samples :
    ∃ file part, parseSource sampleHead = .ok file ∧
      (tokenize sampleHead).tokens.getLast?.map (·.tok) = some (.op .semicolon) ∧
      parseSource ("package p\n" ++ sampleTail) = .ok part ∧
      Text.byteLength sampleHead.toList + Text.byteLength sampleTail.toList
        < Span.maxOffset - 10 ∧
      ∃ joined k, k + 9 = Text.byteLength sampleHead.toList ∧
        parseSource (sampleHead ++ "\n" ++ sampleTail) = .ok joined ∧
        SourceFile.Joins (· + k) file part joined := by
  have hlast : (tokenize sampleHead).tokens.getLast?.map (·.tok)
      = some (.op .semicolon) := by
    decide +kernel
  have hlength : Text.byteLength sampleHead.toList + Text.byteLength sampleTail.toList
      < Span.maxOffset - 10 := by decide +kernel
  have hhead : (parseSource sampleHead).toOption.isSome = true := by decide +kernel
  have htail : (parseSource ("package p\n" ++ sampleTail)).toOption.isSome
      = true := by decide +kernel
  cases hfile : parseSource sampleHead with
  | error e =>
    rw [hfile] at hhead
    cases hhead
  | ok file =>
    cases hpart : parseSource ("package p\n" ++ sampleTail) with
    | error e =>
      rw [hpart] at htail
      cases htail
    | ok part =>
      exact ⟨file, part, rfl, hlast, rfl, hlength,
        parseSource_join hfile hlast hpart hlength⟩

end GoInventory
