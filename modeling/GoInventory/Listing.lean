import GoInventory.FileTree
import GoInventory.Script
import GoInventory.Settings
import GoInventory.Syntax.FileParser

/-!
# Listings

The names that files declare, and the members of their types. Files are taken
one by one in the given order and each is listed as soon as it is read; the
first error ends the listing, and what was written before it stays written.
-/

namespace GoInventory

/-- The text of a file. -/
def readText (fs : FileSystem) (path : String) : Except InspectError String :=
  match fs path with
  | .error cause => .error (.read path cause)
  | .ok bytes =>
    match Text.decode? bytes with
    | none => .error (.read path .notText)
    | some text => .ok text

/-- The file that a text at a path is. -/
def parseText (path source : String) : Except InspectError SourceFile :=
  match parseSource source with
  | .error failure => .error (.parse path (failure.position source) failure)
  | .ok file => .ok file

/-- Parse a text that has been read, and go on with the file. -/
def inspectText (path source : String) (list : SourceFile → Script) : Script :=
  match parseText path source with
  | .error e => .fail e
  | .ok file =>
    (Script.report (.parsed path file.package.name file.decls.length)).andThen
      (list file)

/-- Read and parse a file, and go on with it. -/
def inspectFile (fs : FileSystem) (path : String) (list : SourceFile → Script) :
    Script :=
  match readText fs path with
  | .error e => .fail e
  | .ok source =>
    (Script.report (.read path (Text.byteLength source.toList))).andThen
      (inspectText path source list)

/-- The names under a heading that a filter selects. -/
def SourceFile.selectedNames (file : SourceFile) (heading : Heading)
    (filter : NameFilter) : List String :=
  (file.declarations.filter (·.heading == heading)).flatMap
    fun d => d.names.filter filter.selects

/-- The selected names of a file, one per line. -/
def SourceFile.listNames (heading : Heading) (filter : NameFilter) (file : SourceFile) :
    Script :=
  .inOrder ((file.selectedNames heading filter).map fun name => .record .lines [name])

/-- The selected names of files, one per line. -/
def listNames (fs : FileSystem) (heading : Heading) (filter : NameFilter)
    (paths : List String) : Script :=
  .inOrder (paths.map fun path => inspectFile fs path (·.listNames heading filter))

/-- The record of a member. Nothing is written if one of its values is missing. -/
def Member.list (settings : MemberSettings) (member : Member) : Script :=
  match Column.values settings.columns member with
  | .error cause => .fail (.unsupportedType cause)
  | .ok values => .record settings.encoding values

/-- The members of a declaration that the settings select. -/
def Declaration.selectedMembers (typeName : String) (settings : MemberSettings)
    (d : Declaration) : List Member :=
  (d.membersOf typeName).filter fun member => settings.filter.selects member.name

/-- The selected members of a declaration. A type of this name that cannot have
members is reported. -/
def Declaration.listMembers (typeName : String) (settings : MemberSettings)
    (d : Declaration) : Script :=
  if d.lacksMembers typeName then .report (.withoutMembers typeName)
  else .inOrder ((d.selectedMembers typeName settings).map (·.list settings))

/-- The selected members of all types of this name in a file. -/
def SourceFile.listMembers (typeName : String) (settings : MemberSettings)
    (file : SourceFile) : Script :=
  .inOrder (file.declarations.map (·.listMembers typeName settings))

/-- The selected members of all types of this name in the file at a path. -/
def listMembers (fs : FileSystem) (path typeName : String) (settings : MemberSettings) :
    Script :=
  inspectFile fs path (·.listMembers typeName settings)

end GoInventory
