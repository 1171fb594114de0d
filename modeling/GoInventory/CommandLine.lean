import GoInventory.Listing
import GoInventory.Pattern.Filter

/-!
# The command line

`goinspect list funcs|values|types [-p PATTERN] FILE...` and
`goinspect list fields [-p PATTERN] [-0] [--columns COLUMNS] FILE TYPE`.

Arguments are read from left to right; the first thing that is wrong makes the
whole command line a usage error, and a request for help or for the version ends
the reading. Options may stand before, between and after operands, up to `--`.
An option is given at most once, except that `--columns` adds to the columns and
that `-v` counts for each command level of its own.
-/

namespace GoInventory

namespace CommandLine

/-- The options. -/
inductive Switch where
  | verbose | help | version | pattern | print0 | columns
deriving DecidableEq, Repr

namespace Switch

/-- The option is followed by a value. -/
def takesValue : Switch → Bool
  | pattern | columns => true
  | verbose | help | version | print0 => false

/-- The option's letter. -/
def short? : Switch → Option Char
  | verbose => some 'v'
  | help => some 'h'
  | version => some 'V'
  | pattern => some 'p'
  | print0 => some '0'
  | columns => none

/-- The option's name. -/
def long : Switch → String
  | verbose => "verbose"
  | help => "help"
  | version => "version"
  | pattern => "pattern"
  | print0 => "print0"
  | columns => "columns"

/-- The option may be given again. -/
def isRepeatable (s : Switch) : Bool :=
  s == columns

end Switch

/-- The levels of commands: the program, its `list` command, and the listings of
names and of members. -/
inductive Level where
  | program | list | names | members
deriving DecidableEq, Repr

/-- The options of a level. -/
def Level.switches : Level → List Switch
  | program => [.verbose, .help, .version]
  | list => [.verbose, .help]
  | names => [.verbose, .help, .pattern]
  | members => [.verbose, .help, .pattern, .print0, .columns]

/-- Why reading the arguments ends early. -/
inductive Stop where
  | usage
  | help
  | version
deriving DecidableEq, Repr

/-- What one argument is. -/
inductive Argument where
  | divider
  | long (name : String) (value : Option String)
  | short (letters : List Char)
  | operand (text : String)
deriving DecidableEq, Repr

/-- The kind of an argument before any divider. A hyphen on its own
is an operand. -/
def Argument.ofText (text : String) : Argument :=
  match text.toList with
  | '-' :: '-' :: [] => divider
  | '-' :: '-' :: rest =>
    let name := rest.takeWhile (· != '=')
    match rest.drop name.length with
    | [] => long (String.ofList name) none
    | _ :: value => long (String.ofList name) (some (String.ofList value))
  | '-' :: c :: rest => short (c :: rest)
  | _ => operand text

/-- The options and operands read at one level. -/
structure Given where
  seen : List Switch
  pattern : Option String
  columns : List String
  operands : List String
deriving DecidableEq, Repr

namespace Given

/-- Nothing is given yet. -/
def none : Given := ⟨[], .none, [], []⟩

/-- One option more. -/
def mark (g : Given) (s : Switch) : Except Stop Given :=
  if g.seen.contains s && !s.isRepeatable then .error .usage
  else .ok { g with seen := s :: g.seen }

/-- An option without a value. -/
def flag (g : Given) (s : Switch) : Except Stop Given :=
  match s with
  | .help => .error .help
  | .version => .error .version
  | s => g.mark s

/-- An option with its value. Columns are separated by commas. -/
def option (g : Given) (s : Switch) (value : String) : Except Stop Given := do
  let g ← g.mark s
  match s with
  | .pattern => return { g with pattern := some value }
  | .columns => return { g with columns := g.columns ++ value.splitOn "," }
  | _ => return g

/-- The option is given. -/
def has (g : Given) (s : Switch) : Bool :=
  g.seen.contains s

end Given

/-- Letters of options in one argument. The first option that takes a
value takes the rest of the argument as its value, or waits for one if
nothing is left. -/
def readShort (level : Level) (g : Given) :
    List Char → Except Stop (Given × Option Switch)
  | [] => .ok (g, none)
  | c :: rest =>
    match level.switches.find? (·.short? == some c) with
    | none => .error .usage
    | some s =>
      if s.takesValue then
        match rest with
        | [] => .ok (g, some s)
        | '=' :: value => return (← g.option s (String.ofList value), none)
        | value => return (← g.option s (String.ofList value), none)
      else do
        readShort level (← g.flag s) rest

/-- An option by its name. -/
def readLong (level : Level) (g : Given) (name : String) (value : Option String) :
    Except Stop (Given × Option Switch) :=
  match level.switches.find? (·.long == name) with
  | none => .error .usage
  | some s =>
    match s.takesValue, value with
    | true, some v => return (← g.option s v, none)
    | true, none => .ok (g, some s)
    | false, some _ => .error .usage
    | false, none => return (← g.flag s, none)

/-- One operand more: a file name is not empty, and a listing of members takes a
file and a type. -/
def addOperand (level : Level) (g : Given) (text : String) : Except Stop Given :=
  let isFile := level == .names || g.operands.isEmpty
  if isFile && text.isEmpty then .error .usage
  else if level == .members && g.operands.length ≥ 2 then .error .usage
  else .ok { g with operands := g.operands ++ [text] }

/-- The arguments of a listing. `waiting` is an option that waits for its value. -/
def readListing (level : Level) (g : Given) (waiting : Option Switch) :
    List String → Except Stop Given
  | [] => if waiting.isSome then .error .usage else .ok g
  | text :: rest =>
    match waiting, Argument.ofText text with
    | some s, .operand value => do readListing level (← g.option s value) none rest
    | some _, _ => .error .usage
    | none, .divider => rest.foldlM (addOperand level) g
    | none, .long name value => do
      let (g, waiting) ← readLong level g name value
      readListing level g waiting rest
    | none, .short letters => do
      let (g, waiting) ← readShort level g letters
      readListing level g waiting rest
    | none, .operand text =>
      do readListing level (← addOperand level g text) none rest

/-- A listing that is asked for. -/
inductive Request where
  | names (heading : Heading) (pattern : Option String) (files : List String)
  | members (pattern : Option String) (encoding : OutputEncoding)
      (columns : List String)
      (file typeName : String)
deriving DecidableEq, Repr

/-- A request, and whether the log is wanted in detail. -/
structure Command where
  request : Request
  verbose : Bool
deriving DecidableEq, Repr

/-- The arguments of a listing of names. -/
def readNames (verbose : Bool) (heading : Heading) (args : List String) :
    Except Stop Command := do
  let g ← readListing .names .none none args
  if g.operands.isEmpty then
    throw .usage
  return ⟨.names heading g.pattern g.operands, verbose || g.has .verbose⟩

/-- The arguments of a listing of members. The name is the only column unless
columns are given. -/
def readMembers (verbose : Bool) (args : List String) : Except Stop Command := do
  let g ← readListing .members .none none args
  let encoding := if g.has .print0 then OutputEncoding.nulTerminated else .lines
  let columns := if g.has .columns then g.columns else ["name"]
  match g.operands with
  | [file, typeName] =>
    return ⟨.members g.pattern encoding columns file typeName,
      verbose || g.has .verbose⟩
  | _ => throw .usage

/-- Options up to the first operand, and the arguments from that operand on. -/
def readUntilOperand (level : Level) (g : Given) :
    List String → Except Stop (Given × String × List String)
  | [] => .error .usage
  | text :: rest =>
    match Argument.ofText text with
    | .divider => .error .usage
    | .operand name => .ok (g, name, rest)
    | .long name value =>
      do readUntilOperand level (← readLong level g name value).1 rest
    | .short letters => do readUntilOperand level (← readShort level g letters).1 rest

/-- A request for help on the commands that are named, if there are
such commands. -/
def helpOn (known : List (List String)) (names : List String) : Stop :=
  if known.contains names then .help else .usage

/-- The arguments of the `list` command. -/
def readList (verbose : Bool) (args : List String) : Except Stop Command := do
  let (g, name, rest) ← readUntilOperand .list .none args
  let verbose := verbose || g.has .verbose
  match name with
  | "funcs" => readNames verbose .functions rest
  | "values" => readNames verbose .values rest
  | "types" => readNames verbose .types rest
  | "fields" => readMembers verbose rest
  | "help" =>
    throw (helpOn [[], ["funcs"], ["values"], ["types"], ["fields"], ["help"]] rest)
  | _ => throw .usage

/-- The arguments of the program. -/
def read (args : List String) : Except Stop Command := do
  let (g, name, rest) ← readUntilOperand .program .none args
  match name with
  | "list" => readList (g.has .verbose) rest
  | "help" =>
    throw (helpOn [[], ["list"], ["help"], ["list", "funcs"], ["list", "values"],
      ["list", "types"],
      ["list", "fields"], ["list", "help"]] rest)
  | _ => throw .usage

/-- The listing that a request asks for, and what is written before its errors. -/
def Request.listing (fs : FileSystem) :
    Request → Except InspectError (Script × String)
  | names heading pattern files => do
    let filter ← NameFilter.ofPattern pattern
    return (listNames fs heading filter files, "")
  | members pattern encoding columns file typeName => do
    let settings ← MemberSettings.ofSpecs pattern columns encoding
    return (listMembers fs file typeName settings,
      "listing fields of " ++ typeName ++ ": ")

/-- What a run of the program leaves behind. -/
structure Result where
  exitCode : UInt32
  output : List UInt8
  log : List LogEvent

/-- Run a request; an error is the last event of the log. -/
def Request.run (fs : FileSystem) (request : Request) : Result :=
  match request.listing fs with
  | .error e => ⟨1, [], [.failed e.chain]⟩
  | .ok (script, context) =>
    let outcome := script.play .unlimited
    let output := outcome.session.sink.written
    match outcome.failure? with
    | none => ⟨0, output, outcome.session.log⟩
    | some e => ⟨1, output, outcome.session.log ++ [.failed (context ++ e.chain)]⟩

/-- What the version option prints. -/
def versionText : String := "goinspect 0.1.0\n"

/-- What the help option prints. -/
def helpText : String :=
  "Usage: goinspect [-v] list funcs|values|types [-p PATTERN] FILE...\n" ++
  "       goinspect [-v] list fields [-p PATTERN] [-0] [--columns COLUMNS] FILE TYPE\n"

/-- The text that the program prints, and its exit code. -/
structure Printed where
  exitCode : UInt32
  stdout : List UInt8
  stderr : String

/-- The lines of the events that a filter shows. -/
def logText (filter : LogFilter) (events : List LogEvent) : String :=
  String.join ((events.filter filter.shows).map fun e => e.line ++ "\n")

/-- Run the program. `logSpec` says which events are shown; without it, warnings
and errors are, and with the verbose option the debug events too. -/
def run (fs : FileSystem) (logSpec : Option String) (args : List String) : Printed :=
  match read args with
  | .error .usage => ⟨2, [], helpText⟩
  | .error .help => ⟨0, Text.bytes helpText, ""⟩
  | .error .version => ⟨0, Text.bytes versionText, ""⟩
  | .ok command =>
    let standard := if command.verbose then "debug" else "warn"
    let result := command.request.run fs
    ⟨result.exitCode, result.output,
      logText (.ofSpec (logSpec.getD standard)) result.log⟩

/-- The files that a command line asks to read, in order. -/
def operandFiles (args : List String) : List String :=
  match read args with
  | .error _ => []
  | .ok ⟨.names _ _ files, _⟩ => files
  | .ok ⟨.members _ _ _ file _, _⟩ => [file]

end CommandLine

end GoInventory
