import GoInventory.Proofs.Listing.Scripts

/-!
# Files one after the other

The names of files are listed file by file, up to the first file that cannot be
read, is no text or does not parse (`load`). Listing some paths and then others
is listing them in a row, unless the first listing fails, and then the others
are not looked at.

All this is read off the script of a single file: it ends with the error of that
file and writes nothing, or it does not fail and writes the selected names
(`inspectFile_of_error`, `inspectFile_of_ok`).
-/

namespace GoInventory

/-- The file at a path, or why it cannot be listed: the path leads to no file,
its bytes are no text, or the text is no Go file. -/
def load (fs : FileSystem) (path : String) : Except InspectError SourceFile :=
  match fs path with
  | .error cause => .error (.read path cause)
  | .ok bytes =>
    match Text.decode? bytes with
    | none => .error (.read path .notText)
    | some source =>
      match parseSource source with
      | .error failure => .error (.parse path (failure.position source) failure)
      | .ok file => .ok file

/-- Why the file at a path cannot be listed, if so. -/
def loadError? (fs : FileSystem) (path : String) : Option InspectError :=
  match load fs path with
  | .error e => some e
  | .ok _ => none

/-- The files that are listed: those before the first error. -/
def listedFiles (fs : FileSystem) (paths : List String) : List SourceFile :=
  ((paths.map (load fs)).takeWhile (·.isOk)).filterMap (·.toOption)

/-- Names, each in a line of its own. -/
def lineBytes (names : List String) : List UInt8 :=
  names.flatMap fun name => Text.bytes name ++ Text.bytes "\n"

section Files

variable {fs : FileSystem} {path : String} (list : SourceFile → Script)

/-- A file is loaded as listings do it: its text is read and then parsed. -/
theorem load_eq (fs : FileSystem) (path : String) :
    load fs path = readText fs path >>= parseText path := by
  unfold load readText parseText
  cases fs path with
  | error cause => rfl
  | ok bytes =>
    dsimp only
    cases Text.decode? bytes <;> rfl

/-- A file that cannot be listed has nothing written of it. -/
theorem inspectFile_of_error {e : InspectError} (h : load fs path = .error e) :
    (inspectFile fs path list).failure? = some e ∧
      (inspectFile fs path list).bytes = [] := by
  rw [load_eq] at h
  unfold inspectFile inspectText
  cases hread : readText fs path with
  | error e =>
    rw [hread] at h
    cases h
    exact ⟨rfl, rfl⟩
  | ok source =>
    rw [hread] at h
    have hparse : parseText path source = .error e := h
    dsimp only
    rw [hparse]
    exact ⟨rfl, rfl⟩

/-- A file that can be listed is listed, and nothing but its own listing is
written of it. -/
theorem inspectFile_of_ok {file : SourceFile} (h : load fs path = .ok file) :
    (inspectFile fs path list).failure? = (list file).failure? ∧
      (inspectFile fs path list).bytes = (list file).bytes := by
  rw [load_eq] at h
  unfold inspectFile inspectText
  cases hread : readText fs path with
  | error e =>
    rw [hread] at h
    cases h
  | ok source =>
    rw [hread] at h
    have hparse : parseText path source = .ok file := h
    dsimp only
    rw [hparse]
    exact ⟨rfl, rfl⟩

end Files

/-- The names of a file are written one per line, and that does not fail. -/
theorem SourceFile.listNames_facts (heading : Heading) (filter : NameFilter)
    (file : SourceFile) :
    (file.listNames heading filter).failure? = none ∧
      (file.listNames heading filter).bytes
        = lineBytes (file.selectedNames heading filter) := by
  unfold SourceFile.listNames
  have hrecords : ∀ script ∈ (file.selectedNames heading filter).map
    fun name => Script.record .lines [name],
      script.failure? = none := by simp [Script.record]
  obtain ⟨hnone, hbytes⟩ := Script.inOrder_of_none hrecords
  refine ⟨hnone, hbytes.trans ?_⟩
  rw [List.flatMap_map]
  simp [lineBytes, Script.record, Script.bytes, Action.bytes, OutputEncoding.encode,
    blankJoin, Text.bytes]

/-! ## Lists of paths -/

section Paths

variable {fs : FileSystem} {heading : Heading} {filter : NameFilter}

theorem listNames_cons (path : String) (ps : List String) :
    listNames fs heading filter (path :: ps)
      = (inspectFile fs path (·.listNames heading filter)).andThen
        (listNames fs heading filter ps) := rfl

/-- Behind a file that cannot be listed no path is looked at. -/
theorem listNames_of_error {path : String} {e : InspectError}
    (h : load fs path = .error e) (ps : List String) :
    listNames fs heading filter (path :: ps)
      = inspectFile fs path (·.listNames heading filter) := by
  rw [listNames_cons, Script.andThen_of_some (inspectFile_of_error _ h).1]

/-- The selected names of the files before the first error are written, and that
error ends the listing. -/
theorem listNames_facts (ps : List String) :
    (listNames fs heading filter ps).failure? = ps.findSome? (loadError? fs) ∧
      (listNames fs heading filter ps).bytes
        = (listedFiles fs ps).flatMap
          fun file => lineBytes (file.selectedNames heading filter) := by
  induction ps with
  | nil => exact ⟨rfl, rfl⟩
  | cons path ps ih =>
    unfold listedFiles at ih ⊢
    rw [List.findSome?_cons, List.map_cons, List.takeWhile_cons]
    cases hload : load fs path with
    | error e =>
      obtain ⟨hfailure, hbytes⟩ :=
        inspectFile_of_error (·.listNames heading filter) hload
      have herror : loadError? fs path = some e := by unfold loadError?; rw [hload]
      rw [listNames_of_error hload, hfailure, hbytes, herror]
      exact ⟨rfl, rfl⟩
    | ok file =>
      obtain ⟨hnone, hnames⟩ := file.listNames_facts heading filter
      obtain ⟨hfailure, hbytes⟩ :=
        inspectFile_of_ok (·.listNames heading filter) hload
      rw [hnone] at hfailure
      have herror : loadError? fs path = none := by unfold loadError?; rw [hload]
      rw [listNames_cons, Script.failure?_andThen hfailure,
        Script.bytes_andThen hfailure, hbytes, hnames, ih.1, ih.2, herror]
      exact ⟨rfl, rfl⟩

end Paths

end GoInventory
