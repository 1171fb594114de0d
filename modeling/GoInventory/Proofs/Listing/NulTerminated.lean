import GoInventory.Proofs.Listing.Records
import GoInventory.Proofs.Syntax.Accounting
import GoInventory.Proofs.Text.Encoding
import GoInventory.Proofs.TypeText.Spelling
import Mathlib.Algebra.GroupWithZero.Nat

/-!
# Values with a NUL after each

A listing with a NUL after every value is taken apart again by cutting it at the
NULs (`nulPieces`). A piece has no NUL in it, so this gives the values back if
and only if no value has one: a NUL in a value is one piece more, and so the
pieces can be counted (`length_nulPieces_terminated`).

Names of members never have a NUL, since it is no part of an identifier
(`SourceFile.name_nul_free`). Tags can have one by an escape.
-/

namespace GoInventory

/-! ## Cutting at the NULs -/

/-- The pieces of the bytes that end at a NUL each, without it. What stands
behind the last NUL is a piece too, unless nothing does. -/
def nulPieces : List UInt8 → List (List UInt8)
  | [] => []
  | b :: bs =>
    if b = 0 then [] :: nulPieces bs
    else
      match nulPieces bs with
      | [] => [[b]]
      | piece :: pieces => (b :: piece) :: pieces

/-- Values with a NUL after each. -/
def nulTerminated (values : List (List UInt8)) : List UInt8 :=
  values.flatMap (· ++ [0])

/-- The first NUL ends the first piece. -/
theorem nulPieces_append {value : List UInt8} (h : 0 ∉ value) (rest : List UInt8) :
    nulPieces (value ++ 0 :: rest) = value :: nulPieces rest := by
  induction value with
  | nil => simp [nulPieces]
  | cons b value ih =>
    have hb : b ≠ 0 := by
      intro hzero
      exact h (hzero ▸ List.mem_cons_self)
    rw [List.cons_append, nulPieces, if_neg hb, ih
      fun hmem => h (List.mem_cons_of_mem b hmem)]

/-- No piece has a NUL. -/
theorem nul_not_mem_of_mem_nulPieces {bs piece : List UInt8}
    (h : piece ∈ nulPieces bs) : 0 ∉ piece := by
  induction bs generalizing piece with
  | nil => cases h
  | cons b bs ih =>
    rw [nulPieces] at h
    split at h
    next =>
      rcases List.mem_cons.mp h with rfl | h
      · exact List.not_mem_nil
      · exact ih h
    next hb =>
      split at h
      next =>
        rw [List.mem_singleton.mp h, List.mem_singleton]
        exact Ne.symm hb
      next first more hrest =>
        rw [hrest] at ih
        rcases List.mem_cons.mp h with rfl | h
        · intro hmem
          rcases List.mem_cons.mp hmem with hzero | hmem
          · exact hb hzero.symm
          · exact ih List.mem_cons_self hmem
        · exact ih (List.mem_cons_of_mem first h)

/-- Each NUL ends a piece. -/
theorem length_nulPieces_append (value rest : List UInt8) :
    (nulPieces (value ++ 0 :: rest)).length
      = value.count 0 + 1 + (nulPieces rest).length := by
  induction value with
  | nil => simp [nulPieces, Nat.add_comm]
  | cons b value ih =>
    rw [List.cons_append, nulPieces]
    by_cases hb : b = 0
    · subst hb
      rw [if_pos rfl, List.length_cons, ih, List.count_cons_self]
      omega
    · rw [if_neg hb, List.count_cons_of_ne hb, ← ih]
      cases hpieces : nulPieces (value ++ 0 :: rest) with
      | nil =>
        -- there is a NUL to come, so there is a piece
        rw [hpieces, List.length_nil] at ih
        omega
      | cons piece pieces => rfl

/-- There is one piece for each value, and one more for each NUL in a value. -/
theorem length_nulPieces_terminated (values : List (List UInt8)) :
    (nulPieces (nulTerminated values)).length
      = values.length + (values.map (·.count 0)).sum := by
  induction values with
  | nil => rfl
  | cons value values ih =>
    have hhead : nulTerminated (value :: values)
        = value ++ 0 :: nulTerminated values := by simp [nulTerminated]
    rw [hhead, length_nulPieces_append, ih, List.length_cons, List.map_cons,
      List.sum_cons]
    omega

/-- **The pieces are the values if and only if no value has a NUL.** -/
theorem nulPieces_terminated_iff {values : List (List UInt8)} :
    nulPieces (nulTerminated values) = values ↔ ∀ value ∈ values, 0 ∉ value := by
  constructor
  · intro h value hvalue
    rw [← h] at hvalue
    exact nul_not_mem_of_mem_nulPieces hvalue
  · intro h
    induction values with
    | nil => rfl
    | cons value values ih =>
      obtain ⟨hvalue, hvalues⟩ := List.forall_mem_cons.mp h
      have hhead : nulTerminated (value :: values)
          = value ++ 0 :: nulTerminated values := by simp [nulTerminated]
      rw [hhead, nulPieces_append hvalue, ih hvalues]

/-! ## NULs in a text -/

/-- The NUL bytes of a text are its NUL characters. -/
theorem Text.count_nul_encode (cs : List Char) :
    (Text.encode cs).count 0 = cs.count '\x00' := by
  induction cs with
  | nil => rfl
  | cons c cs ih =>
    have hcons : Text.encode (c :: cs)
        = String.utf8EncodeChar c ++ Text.encode cs := by simp [Text.encode]
    rw [hcons, List.count_append, ih]
    by_cases hc : c = '\x00'
    · subst hc
      rw [List.count_cons_self, Nat.add_comm]
      rfl
    · rw [List.count_cons_of_ne hc, List.count_eq_zero.mpr, Nat.zero_add]
      intro hmem
      have hval := toNat_of_mem_utf8EncodeChar hmem (by decide)
      exact hc (Char.ext (UInt32.toNat_inj.mp hval.symm))

theorem Text.nul_mem_bytes_iff {text : String} :
    0 ∈ Text.bytes text ↔ '\x00' ∈ text.toList := by
  rw [← List.count_pos_iff, ← List.count_pos_iff, Text.bytes, Text.count_nul_encode]

theorem OutputEncoding.rowBytes_nulTerminated (rows : List (List String)) :
    OutputEncoding.nulTerminated.rowBytes rows
      = GoInventory.nulTerminated (rows.flatten.map Text.bytes) := by
  have hvalues : ∀ values : List String,
    Text.encode (OutputEncoding.nulTerminated.encode values)
      = GoInventory.nulTerminated (values.map Text.bytes) := by
    intro values
    induction values with
    | nil => rfl
    | cons value values ih =>
      show Text.encode ((value.toList ++ ['\x00'])
        ++ OutputEncoding.nulTerminated.encode values) = _
      rw [Text.encode_append, ih, Text.encode_append]
      rfl
  induction rows with
  | nil => rfl
  | cons values rows ih =>
    have hcons : OutputEncoding.nulTerminated.rowBytes (values :: rows)
        = Text.encode (OutputEncoding.nulTerminated.encode values)
          ++ OutputEncoding.nulTerminated.rowBytes rows := by
      simp [OutputEncoding.rowBytes]
    rw [hcons, hvalues, ih, List.flatten_cons, List.map_append]
    simp [GoInventory.nulTerminated]

/-! ## Names have no NUL -/

/-- An identifier of a source has no NUL. -/
theorem Tok.Lexed.nul_not_mem {name : String} (h : (Tok.ident name).Lexed) :
    '\x00' ∉ name.toList := by
  obtain ⟨source, l, hl, htok⟩ := h name rfl
  have heq := Lexeme.eq_of_tok?_ident htok
  obtain ⟨c, rest, cls, n, hcut, rfl⟩ := Lexeme.mem_cut hl
  obtain ⟨hcls, htext⟩ := Lexeme.mk.inj heq
  rw [hcls] at hcut
  obtain ⟨hstart, hparts, -⟩ := Lexeme.cutFirst_ident hcut
  rw [← htext]
  intro hmem
  rcases List.mem_cons.mp hmem with rfl | hmem
  · exact absurd hstart (by decide +kernel)
  · exact absurd (hparts _ hmem) (by decide +kernel)

/-- A named member is a name in a struct or interface of the file. -/
theorem SourceFile.exists_name_of_mem {file : SourceFile} {typeName : String}
    {m : Member} (h : m ∈ file.declarations.flatMap (·.membersOf typeName)) :
    ∃ t f n, file.HasType t ∧ f ∈ (Underlying.ofType t).members ∧ n ∈ f.names ∧
      m.name = n.name := by
  obtain ⟨decl, hdecl, hm⟩ := List.mem_flatMap.mp h
  obtain ⟨d, hd, hof⟩ := List.mem_flatMap.mp hdecl
  -- only a type has members, and it stands at the top of its specification
  cases d with
  | imports => cases hof
  | consts group | vars group =>
    unfold Decl.declarations Declaration.ofValues at hof
    dsimp only at hof
    split at hof
    · cases hof
    · rw [List.mem_singleton.mp hof] at hm
      cases hm
  | func decl =>
    rw [List.mem_singleton.mp hof] at hm
    cases hm
  | types group =>
    obtain ⟨spec, hspec, rfl⟩ := List.mem_map.mp hof
    have htop : spec.type ∈ (Decl.types group).topTypes :=
      List.mem_flatMap.mpr ⟨spec, hspec, List.mem_append_right _ List.mem_cons_self⟩
    refine ⟨spec.type, ?_⟩
    rw [Declaration.ofTypeSpec, Declaration.membersOf] at hm
    split at hm
    next =>
      cases hunderlying : Underlying.ofType spec.type with
      | other =>
        rw [hunderlying] at hm
        cases hm
      | struct fields | interface fields =>
        rw [hunderlying] at hm
        obtain ⟨f, hf, hmem⟩ := List.mem_flatMap.mp hm
        obtain ⟨n, hn, rfl⟩ := List.mem_map.mp hmem
        exact ⟨f, n, ⟨_, hd, _, htop, .self⟩, hf, hn, rfl⟩
    next => cases hm

/-- The names of members are identifiers of the source. -/
theorem SourceFile.lexed_of_member {source : String} {file : SourceFile}
    {t : TypeExpr} {f : Field TypeExpr} {n : Ident}
    (h : parseSource source = .ok file) (ht : file.HasType t)
    (hf : f ∈ (Underlying.ofType t).members) (hn : n ∈ f.names) :
    (Tok.ident n.name).Lexed := by
  have hlexed : ∀ run, Grammar.IdentRun .lexed n run → (Tok.ident n.name).Lexed := by
    intro run hrun
    obtain ⟨u, -, hu⟩ := hrun
    exact hu.lexed
  have hspells : ∃ run e, Grammar.Spells .lexed t run e := by
    refine spells_of_hasType (parseTokens_of_parseSource h) ht ?_ ?_
    · rintro s elem rfl
      cases hf
    · rintro s terms rfl
      cases hf
  obtain ⟨run, e, hform⟩ := hspells
  cases Grammar.spells_iff.mp hform with
  | struct _ _ hmembers _ =>
    obtain ⟨part, hmember⟩ := hmembers.item_of_mem hf
    cases hmember with
    | named hnames _ _ _ =>
      obtain ⟨part, hname⟩ := hnames.item_of_mem hn
      exact hlexed part hname
    | embedded => cases hn
  | interface _ _ helems _ =>
    obtain ⟨part, helem⟩ := helems.item_of_mem hf
    cases helem with
    | method hname _ _ _ =>
      rw [List.mem_singleton.mp hn]
      exact hname.lexed
    | embedded => cases hn
  | _ => cases hf

/-- **No name of a member has a NUL.** -/
theorem SourceFile.name_nul_free {source : String} {file : SourceFile}
    {typeName : String} {filter : NameFilter} {m : Member}
    (h : parseSource source = .ok file)
    (hm : m ∈ file.selectedMembers typeName filter) : '\x00' ∉ m.name.toList := by
  obtain ⟨t, f, n, ht, hf, hn, heq⟩ :=
    SourceFile.exists_name_of_mem (List.mem_filter.mp hm).1
  rw [heq]
  exact (SourceFile.lexed_of_member h ht hf hn).nul_not_mem

/-! ## Listings with NULs -/

theorem exists_source_of_load {fs : FileSystem} {path : String} {file : SourceFile}
    (h : load fs path = .ok file) : ∃ source, parseSource source = .ok file := by
  rw [load_eq] at h
  cases hread : readText fs path with
  | error e =>
    rw [hread] at h
    cases h
  | ok source =>
    rw [hread] at h
    have hparse : parseText path source = .ok file := h
    unfold parseText at hparse
    cases hsource : parseSource source with
    | error e =>
      rw [hsource] at hparse
      cases hparse
    | ok file' =>
      rw [hsource] at hparse
      cases hparse
      exact ⟨source, hsource⟩

/-- A listing without an error shows all values of the selected members. -/
theorem exists_rows_of_listMembers {fs : FileSystem} {path typeName : String}
    {settings : MemberSettings}
    (h : ((listMembers fs path typeName settings).play .unlimited).failure? = none) :
    ∃ file rows, load fs path = .ok file ∧
      List.Forall₂ (Member.Shows settings.columns)
        (file.selectedMembers typeName settings.filter) rows ∧
      ((listMembers fs path typeName settings).play .unlimited).output
        = settings.encoding.rowBytes rows := by
  rw [Script.play_unlimited] at h ⊢
  unfold listMembers at h ⊢
  cases hload : load fs path with
  | error e =>
    rw [(inspectFile_of_error _ hload).1] at h
    cases h
  | ok file =>
    obtain ⟨hfailure, hbytes⟩ :=
      inspectFile_of_ok (·.listMembers typeName settings) hload
    have hmembers := file.listMembers_divides typeName settings
    rw [hfailure, hmembers.failure?] at h
    have hwritable : ∀ m ∈ file.selectedMembers typeName settings.filter,
        m.Writable settings := by
      intro m hm htype
      by_contra hbad
      obtain ⟨before, m', after, e, hsplit, hbefore, he⟩ :=
        Member.exists_first ⟨m, hm, hbad⟩
      obtain ⟨rows, -, hfails, -⟩ :=
        Member.list_fails after (fun m' hm' _ => hbefore m' hm') htype he
      rw [hsplit, hfails] at h
      cases h
    obtain ⟨rows, hrows, -, hwritten⟩ := Member.list_rows hwritable
    exact ⟨file, rows, rfl, hrows, hbytes.trans (hmembers.bytes.trans hwritten)⟩

/-- One row for each member, one value for each column. -/
theorem length_flatten_of_shows {columns : List Column} {members : List Member}
    {rows : List (List String)} (h : List.Forall₂ (Member.Shows columns) members rows) :
    rows.flatten.length = members.length * columns.length := by
  induction h with
  | nil => simp
  | @cons member row members rows hrow _ ih =>
    have hlength : columns.length = row.length := List.Forall₂.length_eq hrow
    rw [List.flatten_cons, List.length_append, ih, List.length_cons, ← hlength,
      Nat.add_one_mul, Nat.add_comm]

/-- **A listing with a NUL after each value can be taken apart if no value has a
NUL, and only then.** What is written are the values of the selected members,
each with a NUL behind it. Cutting at the NULs gives one piece for each member
and column, and one more for each NUL in a value. The values of the column of
names have none. -/
theorem members_nulPieces {fs : FileSystem} {path typeName : String}
    {settings : MemberSettings} (hencoding : settings.encoding = .nulTerminated)
    (h : ((listMembers fs path typeName settings).play .unlimited).failure? = none) :
    ∃ file rows, load fs path = .ok file ∧
      List.Forall₂ (Member.Shows settings.columns)
        (file.selectedMembers typeName settings.filter) rows ∧
      ((listMembers fs path typeName settings).play .unlimited).output
        = nulTerminated (rows.flatten.map Text.bytes) ∧
      (nulPieces ((listMembers fs path typeName settings).play
        .unlimited).output).length
        = (file.selectedMembers typeName settings.filter).length *
          settings.columns.length
          + (rows.flatten.map fun value => value.toList.count '\x00').sum ∧
      (nulPieces ((listMembers fs path typeName settings).play .unlimited).output
        = rows.flatten.map Text.bytes ↔
        ∀ value ∈ rows.flatten, '\x00' ∉ value.toList) ∧
      ∀ m ∈ file.selectedMembers typeName settings.filter,
        '\x00' ∉ m.name.toList := by
  obtain ⟨file, rows, hload, hrows, houtput⟩ := exists_rows_of_listMembers h
  rw [hencoding, OutputEncoding.rowBytes_nulTerminated] at houtput
  refine ⟨file, rows, hload, hrows, houtput, ?_, ?_, fun m hm => ?_⟩
  · rw [houtput, length_nulPieces_terminated, List.length_map,
      length_flatten_of_shows hrows, List.map_map]
    congr 2
    exact List.map_congr_left fun value _ => Text.count_nul_encode value.toList
  · rw [houtput, nulPieces_terminated_iff, List.forall_mem_map]
    exact forall₂_congr fun value _ => not_congr Text.nul_mem_bytes_iff
  · obtain ⟨source, hsource⟩ := exists_source_of_load hload
    exact SourceFile.name_nul_free hsource hm

/-- A struct with a tag that has a NUL by an escape, and a tag without one. -/
def sampleTagFiles : FileSystem := fun _ =>
  .ok (Text.bytes
    "package p\ntype S struct \x7b\n\tA int \"a\\x00b\"\n\x7d\ntype T struct \x7b\n\tB, C int \"b\"\n\x7d\n")

/-- The tags of members, with a NUL after each. -/
def sampleTagsOnly : MemberSettings :=
  ⟨.all, [.tags], .nulTerminated⟩

/-- The tags of two members are the pieces of their listing. -/
theorem members_nulPieces_sampleTags :
    ((listMembers sampleTagFiles "a.go" "T" sampleTagsOnly).play .unlimited).failure?
      = none ∧
    ∃ file rows, load sampleTagFiles "a.go" = .ok file ∧
      List.Forall₂ (Member.Shows sampleTagsOnly.columns)
        (file.selectedMembers "T" .all) rows ∧
      (nulPieces ((listMembers sampleTagFiles "a.go" "T" sampleTagsOnly).play
        .unlimited).output
          = rows.flatten.map Text.bytes ↔ ∀ value ∈ rows.flatten,
            '\x00' ∉ value.toList) ∧
      nulPieces ((listMembers sampleTagFiles "a.go" "T" sampleTagsOnly).play
        .unlimited).output
        = [Text.bytes "b", Text.bytes "b"] := by
  have hnone :
      ((listMembers sampleTagFiles "a.go" "T" sampleTagsOnly).play
      .unlimited).failure? = none := by
    decide +kernel
  obtain ⟨file, rows, hload, hrows, -, -, hiff, -⟩ := members_nulPieces rfl hnone
  exact ⟨hnone, file, rows, hload, hrows, hiff, by decide +kernel⟩

/-- A listing of one member in one column succeeds, but has two pieces, and
neither of them is the value. -/
theorem nulPieces_sampleTag_ne :
    ((listMembers sampleTagFiles "a.go" "S" sampleTagsOnly).play .unlimited).failure?
      = none ∧
    ((load sampleTagFiles "a.go").toOption.map fun file =>
        (file.selectedMembers "S" sampleTagsOnly.filter).map
          fun m => (m.name, (Column.values [.tags] m).toOption))
      = some [("A", some ["a\x00b"])] ∧
    nulPieces ((listMembers sampleTagFiles "a.go" "S" sampleTagsOnly).play
      .unlimited).output
      = [Text.bytes "a", Text.bytes "b"] ∧
    [Text.bytes "a", Text.bytes "b"] ≠ [Text.bytes "a\x00b"] := by
  decide +kernel

end GoInventory
