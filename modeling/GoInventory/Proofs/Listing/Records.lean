import GoInventory.Proofs.Listing.FailFast
import GoInventory.Proofs.Listing.Truncation
import GoInventory.Proofs.TypeText.Unsupported
import Mathlib.Data.List.Forall2

/-!
# Members are listed in whole records

The members of a type that a filter selects are listed one record each, in
order. A record shows one value for each column (`Member.Shows`), and the only
value that can be missing is the text of a type that has none
(`Column.values_failsWith`). So a listing with such a column ends at the first
member whose type has no text, and what it has written are the whole records of
the members before (`Member.list_rows`, `Member.list_fails`).

The records can also be made one value at a time in a buffer that is used again
for every record, and written piece by piece (`RecordWriter`). Whatever is left
in the buffer, that writes the same bytes and ends the same way
(`RecordWriter.file_does`).
-/

namespace GoInventory

/-- The members of all types of this name that the filter selects, in order. -/
def SourceFile.selectedMembers (file : SourceFile) (typeName : String)
    (filter : NameFilter) : List Member :=
  (file.declarations.flatMap (·.membersOf typeName)).filter
    fun member => filter.selects member.name

namespace Member

/-- Why the type of the member has no text, if it has none. A member without a
type has the empty text. -/
def unsupported? (member : Member) : Option UnsupportedType :=
  member.type?.bind (·.unsupported?)

/-- The columns show these values of the member, one each. -/
def Shows (columns : List Column) (member : Member) (values : List String) : Prop :=
  List.Forall₂ (fun column value => column.value member = .ok value) columns values

end Member

/-- The bytes of records, one after the other. -/
def OutputEncoding.rowBytes (encoding : OutputEncoding) (rows : List (List String)) :
    List UInt8 :=
  rows.flatMap fun values => Text.encode (encoding.encode values)

/-! ## The values of one member -/

theorem Column.value_failsWith (column : Column) (member : Member) :
    FailsWith (column.value member) (if column = .type then member.unsupported?
      else none) := by
  cases column with
  | type =>
    unfold value Member.unsupported?
    cases member.type? with
    | none => rfl
    | some t => exact t.render_failsWith
  | name | tags | tag => rfl

/-- A value is missing only if the text of a type is asked for, and then with
the error of that type. -/
theorem Column.values_failsWith (columns : List Column) (member : Member) :
    FailsWith (Column.values columns member)
      (if .type ∈ columns then member.unsupported? else none) := by
  unfold Column.values
  induction columns with
  | nil => rfl
  | cons column columns ih =>
    rw [List.mapM_cons]
    have hboth := (column.value_failsWith member).bind
      fun value => ih.map (value :: ·)
    convert hboth using 1
    by_cases hcolumn : column = .type
    · subst hcolumn
      cases member.unsupported? <;> simp
    · rw [if_neg hcolumn, Option.none_or]
      simp [List.mem_cons, Ne.symm hcolumn]

theorem Column.values_eq_ok_iff {columns : List Column} {member : Member}
    {values : List String} :
    Column.values columns member = .ok values ↔ member.Shows columns values := by
  unfold Column.values Member.Shows
  induction columns generalizing values with
  | nil =>
    rw [List.forall₂_nil_left_iff]
    show Except.ok [] = Except.ok values ↔ _
    rw [Except.ok.injEq, eq_comm]
  | cons column columns ih =>
    rw [List.mapM_cons, List.forall₂_cons_left_iff]
    cases column.value member with
    | error e => simp [bind, Except.bind]
    | ok value =>
      simp only [← ih]
      cases columns.mapM fun column => column.value member with
      | error e => simp [bind, Except.bind]
      | ok others => simp [bind, Except.bind, pure, Except.pure, eq_comm]

/-! ## One record after the other -/

namespace Script

/-- Scripts that write the same and end the same way do so in a row. -/
theorem Divides.inOrder {parts wholes : List Script}
    (h : List.Forall₂ Divides parts wholes) :
    (Script.inOrder parts).Divides (Script.inOrder wholes) := by
  induction h with
  | nil => exact ⟨rfl, rfl⟩
  | @cons part whole parts wholes hfirst _ ih =>
    show (part.andThen (Script.inOrder parts)).Divides
      (whole.andThen (Script.inOrder wholes))
    cases hfailure : whole.failure? with
    | none =>
      have hpart : part.failure? = none := hfirst.failure?.trans hfailure
      refine ⟨?_, ?_⟩
      · rw [bytes_andThen hpart, bytes_andThen hfailure, hfirst.bytes, ih.bytes]
      · rw [failure?_andThen hpart, failure?_andThen hfailure, ih.failure?]
    | some e =>
      rw [andThen_of_some hfailure, andThen_of_some (hfirst.failure?.trans hfailure)]
      exact hfirst

theorem inOrder_flatMap {α : Type} (as : List α) (scripts : α → List Script) :
    Script.inOrder (as.flatMap scripts)
      = Script.inOrder (as.map fun a => Script.inOrder (scripts a)) := by
  induction as with
  | nil => rfl
  | cons a as ih =>
    rw [List.flatMap_cons, inOrder_append, ih]
    rfl

end Script

theorem Declaration.membersOf_of_lacksMembers {typeName : String} {d : Declaration}
    (h : d.lacksMembers typeName = true) : d.membersOf typeName = [] := by
  unfold lacksMembers at h
  split at h
  · simp [membersOf, Underlying.named]
  · cases h

/-- Beside what is reported, the members of a file are listed as if they
stood in one list. -/
theorem SourceFile.listMembers_divides (typeName : String) (settings : MemberSettings)
    (file : SourceFile) :
    (file.listMembers typeName settings).Divides
      (.inOrder ((file.selectedMembers typeName settings.filter).map
        (·.list settings))) := by
  have hselected : file.selectedMembers typeName settings.filter
      = file.declarations.flatMap (·.selectedMembers typeName settings) := by
    unfold SourceFile.selectedMembers
    rw [List.filter_flatMap]
    rfl
  rw [hselected, List.map_flatMap, Script.inOrder_flatMap]
  refine Script.Divides.inOrder
    (List.forall₂_map_left_iff.mpr (List.forall₂_map_right_iff.mpr ?_))
  refine List.forall₂_same.mpr fun d _ => ?_
  unfold Declaration.listMembers
  cases hlacks : d.lacksMembers typeName with
  | false => exact ⟨rfl, rfl⟩
  | true =>
    unfold Declaration.selectedMembers
    rw [Declaration.membersOf_of_lacksMembers hlacks]
    exact ⟨rfl, rfl⟩

section Rows

variable {settings : MemberSettings}

/-- The columns ask for no text that the member lacks. -/
def Member.Writable (settings : MemberSettings) (member : Member) : Prop :=
  .type ∈ settings.columns → member.unsupported? = none

theorem Member.exists_shows {member : Member} (h : member.Writable settings) :
    ∃ values, member.Shows settings.columns values := by
  have hfails := Column.values_failsWith settings.columns member
  have hnone : (if .type ∈ settings.columns then member.unsupported? else none)
      = none := by
    by_cases htype : Column.type ∈ settings.columns
    · rw [if_pos htype, h htype]
    · rw [if_neg htype]
  obtain ⟨values, hvalues⟩ := hfails.exists_ok_iff.mpr hnone
  exact ⟨values, Column.values_eq_ok_iff.mp hvalues⟩

/-- **Members of which no value is missing are written whole, one
after the other.** -/
theorem Member.list_rows {members : List Member}
    (h : ∀ member ∈ members, member.Writable settings) :
    ∃ rows, List.Forall₂ (Member.Shows settings.columns) members rows ∧
      (Script.inOrder (members.map (·.list settings))).failure? = none ∧
      (Script.inOrder (members.map (·.list settings))).bytes
        = settings.encoding.rowBytes rows := by
  induction members with
  | nil => exact ⟨[], .nil, rfl, rfl⟩
  | cons member members ih =>
    obtain ⟨hmember, hmembers⟩ := List.forall_mem_cons.mp h
    obtain ⟨values, hvalues⟩ := Member.exists_shows hmember
    obtain ⟨rows, hrows, hnone, hbytes⟩ := ih hmembers
    have hlist : member.list settings = .record settings.encoding values := by
      unfold Member.list
      rw [Column.values_eq_ok_iff.mpr hvalues]
    have hfirst : (member.list settings).failure? = none := by rw [hlist]; rfl
    refine ⟨values :: rows, .cons hvalues hrows, ?_, ?_⟩
    · exact (Script.failure?_andThen hfirst).trans hnone
    · show ((member.list settings).andThen
        (.inOrder (members.map (·.list settings)))).bytes = _
      rw [Script.bytes_andThen hfirst, hbytes, hlist]
      simp [OutputEncoding.rowBytes, Script.record, Script.bytes, Action.bytes]

/-- **A member with a missing value ends the listing**, and nothing of its
record is written. -/
theorem Member.list_fails {before : List Member} {member : Member}
    (after : List Member) {e : UnsupportedType}
    (hbefore : ∀ m ∈ before, m.Writable settings) (htype : .type ∈ settings.columns)
    (he : member.unsupported? = some e) :
    ∃ rows, List.Forall₂ (Member.Shows settings.columns) before rows ∧
      (Script.inOrder ((before ++ member :: after).map (·.list settings))).failure?
        = some (.unsupportedType e) ∧
      (Script.inOrder ((before ++ member :: after).map (·.list settings))).bytes
        = settings.encoding.rowBytes rows := by
  obtain ⟨rows, hrows, hnone, hbytes⟩ := Member.list_rows hbefore
  have hlist : member.list settings = .fail (.unsupportedType e) := by
    have hfails := Column.values_failsWith settings.columns member
    rw [if_pos htype, he] at hfails
    unfold Member.list
    rw [(hfails.eq_error_iff e).mpr rfl]
  have hrest : Script.inOrder ((member :: after).map (·.list settings))
      = .fail (.unsupportedType e) := by
    rw [List.map_cons, hlist]
    rfl
  rw [List.map_append, Script.inOrder_append, hrest]
  refine ⟨rows, hrows, Script.failure?_andThen hnone, ?_⟩
  rw [Script.bytes_andThen hnone, hbytes]
  exact List.append_nil _

end Rows

/-! ## One value after the other -/

/-- What a listing of members works with: a buffer for the values of a record,
and where records are written. -/
structure RecordWriter where
  buffer : List String
  sink : Sink

namespace RecordWriter

/-- Put the values of the columns behind what is in the buffer, up to the first
that is missing. -/
def fill (w : RecordWriter) (member : Member) :
    List Column → Option UnsupportedType × RecordWriter
  | [] => (none, w)
  | column :: columns =>
    match column.value member with
    | .error e => (some e, w)
    | .ok value => fill { w with buffer := w.buffer ++ [value] } member columns

/-- Write the values in the buffer as a record, piece by piece. -/
def flush (w : RecordWriter) (encoding : OutputEncoding) :
    Option InspectError × RecordWriter :=
  match w.sink.writePieces ((encoding.pieces w.buffer).map Text.encode) with
  | (true, sink) => (none, { w with sink := sink })
  | (false, sink) => (some .outputFull, { w with sink := sink })

/-- List a member, unless the filter passes over it: clear the buffer, fill it,
and write what is in it. -/
def member (settings : MemberSettings) (w : RecordWriter) (m : Member) :
    Option InspectError × RecordWriter :=
  if settings.filter.selects m.name then
    match ({ w with buffer := [] } : RecordWriter).fill m settings.columns with
    | (some e, w') => (some (.unsupportedType e), w')
    | (none, w') => w'.flush settings.encoding
  else (none, w)

/-- Do something with one thing after the other, up to the first error. -/
def each {α : Type} (act : RecordWriter → α → Option InspectError × RecordWriter)
    (w : RecordWriter) : List α → Option InspectError × RecordWriter
  | [] => (none, w)
  | a :: as =>
    match act w a with
    | (some e, w') => (some e, w')
    | (none, w') => each act w' as

/-- List the members of all types of this name in a file, declaration
by declaration. -/
def file (typeName : String) (settings : MemberSettings) (w : RecordWriter)
    (f : SourceFile) : Option InspectError × RecordWriter :=
  w.each (fun w' d => w'.each (member settings) (d.membersOf typeName)) f.declarations

end RecordWriter

/-! ## Both ways are the same -/

theorem Session.steps_append (xs ys : List Action) : ∀ s : Session,
    s.steps (xs ++ ys) = if (s.steps xs).1 then (s.steps xs).2.steps ys
      else s.steps xs := by
  induction xs with
  | nil => intro s; rfl
  | cons action xs ih =>
    intro s
    rw [List.cons_append, steps, steps]
    cases s.step action with
    | mk ok s' =>
      cases ok with
      | false => rfl
      | true => exact ih s'

theorem Session.steps_write (s : Session) (bytes : List UInt8) :
    s.steps [.write bytes]
      = ((s.sink.write bytes).1, { s with sink := (s.sink.write bytes).2 }) := by
  cases hok : (s.sink.write bytes).1 <;> simp [steps, step, hok]

/-- What is written does not depend on what was reported. -/
theorem Session.steps_sink (actions : List Action) :
    ∀ (sink : Sink) (log log' : List LogEvent),
    (steps ⟨sink, log⟩ actions).1 = (steps ⟨sink, log'⟩ actions).1 ∧
      (steps ⟨sink, log⟩ actions).2.sink = (steps ⟨sink, log'⟩ actions).2.sink := by
  induction actions with
  | nil => intro sink log log'; exact ⟨rfl, rfl⟩
  | cons action actions ih =>
    intro sink log log'
    cases action with
    | report event => exact ih sink _ _
    | write bytes =>
      unfold steps step
      dsimp only
      cases sink.write bytes with
      | mk ok sink' =>
        cases ok with
        | false => exact ⟨rfl, rfl⟩
        | true => exact ih sink' log log'

namespace Script

/-- How a script ends, and where its output stands then. -/
def drive (script : Script) (sink : Sink) : Option InspectError × Sink :=
  ((script.play sink).failure?, (script.play sink).session.sink)

theorem drive_eq (script : Script) (sink : Sink) :
    script.drive sink =
      (if ((Session.start sink).steps script.actions).1 then script.failure?
        else some .outputFull,
        ((Session.start sink).steps script.actions).2.sink) := by
  unfold drive play
  cases (Session.start sink).steps script.actions with
  | mk ok s => cases ok <;> rfl

theorem drive_andThen (a b : Script) (sink : Sink) :
    (a.andThen b).drive sink =
      match a.drive sink with
      | (some e, sink') => (some e, sink')
      | (none, sink') => b.drive sink' := by
  cases hfailure : a.failure? with
  | some e =>
    rw [andThen_of_some hfailure, drive_eq, hfailure]
    cases ((Session.start sink).steps a.actions).1 <;> rfl
  | none =>
    rw [andThen_of_none hfailure, drive_eq, drive_eq, hfailure]
    dsimp only
    rw [Session.steps_append]
    cases (Session.start sink).steps a.actions with
    | mk ok s =>
      cases ok with
      | false => rfl
      | true =>
        obtain ⟨hok, hsink⟩ := Session.steps_sink b.actions s.sink s.log []
        show (if (s.steps b.actions).1 then b.failure?
          else some .outputFull, (s.steps b.actions).2.sink)
          = b.drive s.sink
        rw [drive_eq, hok, hsink]
        rfl

theorem drive_record (encoding : OutputEncoding) (values : List String) (sink : Sink) :
    (Script.record encoding values).drive sink =
      (if (sink.writeRecord encoding values).1 then none
        else some .outputFull, (sink.writeRecord encoding values).2) := by
  rw [drive_eq]
  show (if (Session.steps ⟨sink, []⟩ [.write _]).1 then none
    else _, (Session.steps ⟨sink, []⟩ [.write _]).2.sink) = _
  rw [Session.steps_write]
  rfl

/-- A script that is done is passed over. -/
theorem inOrder_filter {α : Type} (as : List α) (p : α → Bool) (scripts : α → Script) :
    Script.inOrder ((as.filter p).map scripts)
      = Script.inOrder (as.map fun a => if p a then scripts a else done) := by
  induction as with
  | nil => rfl
  | cons a as ih =>
    rw [List.filter_cons]
    cases hp : p a with
    | false =>
      rw [List.map_cons, hp]
      exact ih
    | true =>
      rw [List.map_cons, hp]
      exact congrArg (andThen (scripts a)) ih

end Script

namespace RecordWriter

/-- The writer did what a script does: it ended the same way, with
the same output. -/
def Does (result : Option InspectError × RecordWriter) (script : Script) (sink : Sink) :
    Prop :=
  (result.1, result.2.sink) = script.drive sink

/-- If no value is missing, filling puts the values behind what is in the buffer. -/
theorem fill_of_ok {member : Member} {columns : List Column} {values : List String}
    (h : member.Shows columns values) : ∀ w : RecordWriter,
    w.fill member columns = (none, { w with buffer := w.buffer ++ values }) := by
  induction h with
  | nil => intro w; simp [fill]
  | @cons column value columns values hvalue _ ih =>
    intro w
    unfold fill
    rw [hvalue]
    dsimp only
    rw [ih]
    simp

/-- If a value is missing, filling stops there. -/
theorem fill_of_error {member : Member} {e : UnsupportedType} :
    ∀ {columns : List Column} (w : RecordWriter),
    Column.values columns member = .error e →
    ∃ buffer, w.fill member columns = (some e, { w with buffer := buffer }) := by
  intro columns
  induction columns with
  | nil => intro w h; cases h
  | cons column columns ih =>
    intro w h
    unfold Column.values at h ih
    unfold fill
    rw [List.mapM_cons] at h
    cases hvalue : column.value member with
    | error e' =>
      rw [hvalue] at h
      cases h
      exact ⟨w.buffer, rfl⟩
    | ok value =>
      rw [hvalue] at h
      have herror : (columns.mapM fun column => column.value member) = .error e := by
        cases hrest : columns.mapM fun column => column.value member with
        | error e' =>
          rw [hrest] at h
          cases h
          rfl
        | ok values =>
          rw [hrest] at h
          cases h
      exact ih { w with buffer := w.buffer ++ [value] } herror

theorem flush_does (w : RecordWriter) (encoding : OutputEncoding) :
    Does (w.flush encoding) (.record encoding w.buffer) w.sink := by
  unfold Does flush
  rw [Script.drive_record, Sink.writePieces_pieces]
  cases w.sink.writeRecord encoding w.buffer with
  | mk ok sink => cases ok <;> rfl

/-- **What is left in the buffer from other members does not matter.** -/
theorem member_does (settings : MemberSettings) (w : RecordWriter) (m : Member) :
    Does (w.member settings m) (if settings.filter.selects m.name then m.list settings
      else .done) w.sink := by
  unfold member
  by_cases hselects : settings.filter.selects m.name = true
  · rw [if_pos hselects, if_pos hselects]
    unfold Member.list
    cases hvalues : Column.values settings.columns m with
    | error e =>
      obtain ⟨buffer, hfill⟩ := fill_of_error { w with buffer := [] } hvalues
      rw [hfill]
      rfl
    | ok values =>
      rw [fill_of_ok (Column.values_eq_ok_iff.mp hvalues)]
      exact flush_does _ _
  · rw [if_neg hselects, if_neg hselects]
    rfl

theorem each_does {α : Type}
    {act : RecordWriter → α → Option InspectError × RecordWriter}
    {scripts : α → Script} (h : ∀ w a, Does (act w a) (scripts a) w.sink)
    (as : List α) :
    ∀ w : RecordWriter, Does (w.each act as) (.inOrder (as.map scripts)) w.sink := by
  induction as with
  | nil => intro w; rfl
  | cons a as ih =>
    intro w
    show _ = ((scripts a).andThen (.inOrder (as.map scripts))).drive w.sink
    rw [Script.drive_andThen, ← h w a, each]
    cases act w a with
    | mk e? w' =>
      cases e? with
      | some e => rfl
      | none => exact ih w'

/-- **The writer lists the members of a file as their script does**, whatever is
in its buffer and however much its sink takes. -/
theorem file_does (typeName : String) (settings : MemberSettings) (w : RecordWriter)
    (f : SourceFile) :
    Does (w.file typeName settings f) (f.listMembers typeName settings) w.sink := by
  refine each_does (fun w' d => ?_) f.declarations w
  have hmembers := each_does (member_does settings) (d.membersOf typeName) w'
  rw [← Script.inOrder_filter] at hmembers
  unfold Declaration.listMembers
  cases hlacks : d.lacksMembers typeName with
  | false => exact hmembers
  | true =>
    rw [Declaration.membersOf_of_lacksMembers hlacks]
    rfl

end RecordWriter

/-! ## Whole records -/

/-- A list with a member whose type has no text has a first one. -/
theorem Member.exists_first {members : List Member}
    (h : ∃ m ∈ members, m.unsupported? ≠ none) :
    ∃ before m after e, members = before ++ m :: after ∧
      (∀ m' ∈ before, m'.unsupported? = none) ∧
      m.unsupported? = some e := by
  have hsome : members.findSome? Member.unsupported? ≠ none := by
    rw [ne_eq, List.findSome?_eq_none_iff]
    simpa using h
  obtain ⟨e, he⟩ := Option.ne_none_iff_exists'.mp hsome
  obtain ⟨before, m, after, hsplit, hm, hbefore⟩ := List.findSome?_eq_some_iff.mp he
  exact ⟨before, m, after, e, hsplit, hbefore, hm⟩

/-- **Members are listed in whole records only.** If no type without a text is
asked for, every selected member is listed. Otherwise the first selected
member whose type has no text is the error, and exactly the records of the
members before it are written. Making the records one value at a time in a
buffer does the same. -/
theorem members_wholeRecords {fs : FileSystem} {path : String} {file : SourceFile}
    (h : load fs path = .ok file) (typeName : String) (settings : MemberSettings) :
    ((.type ∉ settings.columns ∨ ∀ m ∈ file.selectedMembers typeName settings.filter,
      m.unsupported? = none) →
      ∃ rows, List.Forall₂ (Member.Shows settings.columns)
        (file.selectedMembers typeName settings.filter) rows ∧
        ((listMembers fs path typeName settings).play .unlimited).failure? = none ∧
        ((listMembers fs path typeName settings).play .unlimited).output
          = settings.encoding.rowBytes rows) ∧
    ((.type ∈ settings.columns ∧ ∃ m ∈ file.selectedMembers typeName settings.filter,
      m.unsupported? ≠ none) →
      ∃ before m after e rows, file.selectedMembers typeName settings.filter
        = before ++ m :: after ∧
        (∀ m' ∈ before, m'.unsupported? = none) ∧ m.unsupported? = some e ∧
        List.Forall₂ (Member.Shows settings.columns) before rows ∧
        ((listMembers fs path typeName settings).play .unlimited).failure?
          = some (.unsupportedType e) ∧
        ((listMembers fs path typeName settings).play .unlimited).output
          = settings.encoding.rowBytes rows) ∧
    ∀ w : RecordWriter,
      (w.file typeName settings file).1
        = ((file.listMembers typeName settings).play w.sink).failure? ∧
      (w.file typeName settings file).2.sink
        = ((file.listMembers typeName settings).play w.sink).session.sink := by
  have hmembers := file.listMembers_divides typeName settings
  obtain ⟨hfailure, hbytes⟩ := inspectFile_of_ok (·.listMembers typeName settings) h
  have hplay : ((listMembers fs path typeName settings).play .unlimited).failure?
        = (Script.inOrder ((file.selectedMembers typeName settings.filter).map
          (·.list settings))).failure? ∧
      ((listMembers fs path typeName settings).play .unlimited).output
        = (Script.inOrder ((file.selectedMembers typeName settings.filter).map
          (·.list settings))).bytes := by
    rw [Script.play_unlimited]
    exact ⟨hfailure.trans hmembers.failure?, hbytes.trans hmembers.bytes⟩
  rw [hplay.1, hplay.2]
  refine ⟨fun hall => ?_, fun hsome => ?_, fun w => ?_⟩
  · refine Member.list_rows fun m hm htype => ?_
    rcases hall with hnot | hall
    · exact absurd htype hnot
    · exact hall m hm
  · obtain ⟨htype, hbad⟩ := hsome
    obtain ⟨before, m, after, e, hsplit, hbefore, he⟩ := Member.exists_first hbad
    obtain ⟨rows, hrows, hlist⟩ :=
      Member.list_fails after (fun m' hm' _ => hbefore m' hm') htype he
    rw [hsplit]
    exact ⟨before, m, after, e, rows, rfl, hbefore, he, hrows, hlist⟩
  · exact Prod.mk.inj (RecordWriter.file_does typeName settings w file)

/-- Two declarations of a name: an interface, and a struct with tags in which
two members have types without a text. -/
def sampleMemberFiles : FileSystem := fun _ =>
  .ok (Text.bytes ("package p\ntype S interface \x7bM()\x7d\n" ++
    "type S struct \x7bA, B T `j:\"x\"`; b [...]T; C [n+1]T\x7d"))

/-- The names, types and tags of members whose name has an upper case letter. -/
def sampleUpperCase : MemberSettings :=
  ⟨⟨fun name => name.toList.any Char.isUpper⟩,
    [.name, .type, .tag "j", .tags], .lines⟩

/-- The members of both declarations are listed. Of those without a text for
their type the first is passed over, since it is not selected, and the second
is the error. -/
theorem members_wholeRecords_sampleUpperCase :
    ∃ file, load sampleMemberFiles "a.go" = .ok file ∧
      (∃ m ∈ file.selectedMembers "S" sampleUpperCase.filter, m.unsupported? ≠ none) ∧
      ((listMembers sampleMemberFiles "a.go" "S" sampleUpperCase).play
        .unlimited).output
        = Text.bytes "M   \nA T x j:\"x\"\nB T x j:\"x\"\n" ∧
      ((listMembers sampleMemberFiles "a.go" "S" sampleUpperCase).play
        .unlimited).failure?
        = some (.unsupportedType ⟨.lengthExpression, ⟨77, 80⟩⟩) ∧
      ∃ before m after e rows,
        file.selectedMembers "S" sampleUpperCase.filter = before ++ m :: after ∧
        m.unsupported? = some e ∧
        List.Forall₂ (Member.Shows sampleUpperCase.columns) before rows ∧
        ((listMembers sampleMemberFiles "a.go" "S" sampleUpperCase).play
          .unlimited).output
          = sampleUpperCase.encoding.rowBytes rows := by
  have hbad : ((load sampleMemberFiles "a.go").toOption.map fun file =>
      (file.selectedMembers "S" sampleUpperCase.filter).any (·.unsupported?.isSome))
        = some true := by
    decide +kernel
  have hplay :
    (((listMembers sampleMemberFiles "a.go" "S" sampleUpperCase).play
    .unlimited).output,
      ((listMembers sampleMemberFiles "a.go" "S" sampleUpperCase).play
        .unlimited).failure?)
        = (Text.bytes "M   \nA T x j:\"x\"\nB T x j:\"x\"\n",
          some (.unsupportedType ⟨.lengthExpression, ⟨77, 80⟩⟩)) := by
    decide +kernel
  cases hload : load sampleMemberFiles "a.go" with
  | error e =>
    rw [hload] at hbad
    cases hbad
  | ok file =>
    rw [hload] at hbad
    have hsome : ∃ m ∈ file.selectedMembers "S" sampleUpperCase.filter, m.unsupported?
        ≠ none := by
      obtain ⟨m, hm, hunsupported⟩ := List.any_eq_true.mp (Option.some.inj hbad)
      exact ⟨m, hm, Option.isSome_iff_ne_none.mp hunsupported⟩
    obtain ⟨before, m, after, e, rows, hsplit, -, he, hrows, -, houtput⟩ :=
      (members_wholeRecords hload "S" sampleUpperCase).2.1 ⟨by decide, hsome⟩
    exact ⟨file, rfl, hsome, (Prod.mk.inj hplay).1, (Prod.mk.inj hplay).2, before, m,
      after, e, rows,
      hsplit, he, hrows, houtput⟩

end GoInventory
