/-!
# The log

What an inspection reports while it runs. Every event has a level and the part
of the program it comes from. Which events are shown is decided by directives
such as `debug` or `goinspect=debug`: the directive with the longest matching
name counts, and a directive without a name matches everything.
-/

namespace GoInventory

/-- How urgent an event is. -/
inductive LogLevel where
  | error | warn | info | debug | trace
deriving DecidableEq, Repr

namespace LogLevel

/-- The level in a log line. -/
def label : LogLevel → String
  | error => "ERROR"
  | warn => "WARN"
  | info => "INFO"
  | debug => "DEBUG"
  | trace => "TRACE"

/-- The place of the level, the most urgent first. -/
def rank : LogLevel → Nat
  | error => 1
  | warn => 2
  | info => 3
  | debug => 4
  | trace => 5

end LogLevel

/-- Something worth reporting. -/
inductive LogEvent where
  | read (path : String) (size : Nat)
  | parsed (path : String) (package : String) (declarations : Nat)
  | withoutMembers (typeName : String)
  | failed (message : String)
deriving DecidableEq, Repr

namespace LogEvent

/-- The level of an event. -/
def level : LogEvent → LogLevel
  | read _ _ | parsed _ _ _ => .debug
  | withoutMembers _ => .trace
  | failed _ => .error

/-- Which part of the program reports the event. -/
def target : LogEvent → String
  | read _ _ | parsed _ _ _ => "goinspect::inspect"
  | withoutMembers _ => "goinspect::fields"
  | failed _ => "goinspect"

/-- The wording of an event. -/
def message : LogEvent → String
  | read path size => s!"read {path} ({size} bytes)"
  | parsed path package declarations =>
    s!"parsed {path}: package {package}, {declarations} top-level declarations"
  | withoutMembers typeName => s!"type {typeName} matched but has no members to list"
  | failed message => message

/-- The line that shows an event. -/
def line (e : LogEvent) : String :=
  s!"[{e.level.label} {e.target}] {e.message}"

end LogEvent

/-- Show events up to a rank, of the parts whose name starts with `target`. -/
structure LogDirective where
  target : String
  rank : Nat
deriving DecidableEq, Repr

/-- Which events are shown. -/
structure LogFilter where
  directives : List LogDirective
deriving DecidableEq, Repr

namespace LogFilter

/-- The rank up to which a level name shows events. -/
def rankOf? (name : String) : Option Nat :=
  [("off", 0), ("error", 1), ("warn", 2), ("info", 3), ("debug", 4),
    ("trace", 5)].lookup
    name.toLower

/-- One directive: a level, a name, or both with an equals sign between them. -/
def directive? (text : String) : Option LogDirective :=
  match text.splitOn "=" with
  | [one] =>
    match rankOf? one with
    | some rank => some ⟨"", rank⟩
    | none => some ⟨one, 5⟩
  | [target, level] =>
    if level.trimAscii.isEmpty then some ⟨target, 5⟩
    else (rankOf? level.trimAscii.toString).map fun rank => ⟨target, rank⟩
  | _ => none

/-- The directives with one more, which replaces one for the same name. -/
def add (d : LogDirective) (ds : List LogDirective) : List LogDirective :=
  ds.filter (·.target != d.target) ++ [d]

/-- The filter that a list of directives, with commas between them, stands for.
Without a directive only errors are shown. -/
def ofSpec (spec : String) : LogFilter :=
  let texts := ((spec.splitOn "/").headD "").splitOn ","
  let texts := (texts.map (·.trimAscii.toString)).filter (!·.isEmpty)
  let directives := (texts.filterMap directive?).foldl (fun ds d => add d ds) []
  ⟨if directives.isEmpty then [⟨"", 1⟩] else directives⟩

/-- Of two directives the one for the longer name, the first if they are alike. -/
def longer (best : Option LogDirective) (d : LogDirective) : Option LogDirective :=
  match best with
  | none => some d
  | some b => if b.target.utf8ByteSize < d.target.utf8ByteSize then some d else some b

/-- The event is shown. -/
def shows (filter : LogFilter) (e : LogEvent) : Bool :=
  let fitting := filter.directives.filter fun d => e.target.startsWith d.target
  (fitting.foldl longer none).any fun d => e.level.rank ≤ d.rank

end LogFilter

end GoInventory
