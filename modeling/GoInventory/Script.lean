import GoInventory.InspectError
import GoInventory.Log
import GoInventory.Record

/-!
# Scripts

A listing is worked out as a script before anything is written: the events to
report and the bytes to write, in order, and the error it ends with if there
is one. Scripts are joined one after the other, and nothing comes after an
error. Playing a script into a sink is the only thing that can cut it short,
when the sink is full.
-/

namespace GoInventory

/-- One step of a listing. -/
inductive Action where
  | report (event : LogEvent)
  | write (bytes : List UInt8)
deriving DecidableEq, Repr

/-- The steps of a listing, and the error that ends it. -/
structure Script where
  actions : List Action
  failure? : Option InspectError
deriving DecidableEq, Repr

namespace Script

/-- Nothing to do. -/
def done : Script := ⟨[], none⟩

/-- End with an error. -/
def fail (e : InspectError) : Script := ⟨[], some e⟩

/-- Report an event. -/
def report (event : LogEvent) : Script := ⟨[.report event], none⟩

/-- Write a record. -/
def record (encoding : OutputEncoding) (values : List String) : Script :=
  ⟨[.write (Text.encode (encoding.encode values))], none⟩

/-- One script and then the other, unless the first ends with an error. -/
def andThen (a b : Script) : Script :=
  match a.failure? with
  | some _ => a
  | none => ⟨a.actions ++ b.actions, b.failure?⟩

/-- Scripts one after the other, up to the first that ends with an error. -/
def inOrder (scripts : List Script) : Script :=
  scripts.foldr andThen done

end Script

/-- What a listing leaves behind: its output and its log. -/
structure Session where
  sink : Sink
  log : List LogEvent
deriving DecidableEq, Repr

namespace Session

/-- A session in which nothing has happened. -/
def start (sink : Sink) : Session := ⟨sink, []⟩

/-- The session after one step, and whether the step succeeded. -/
def step (s : Session) : Action → Bool × Session
  | .report event => (true, { s with log := s.log ++ [event] })
  | .write bytes =>
    let (ok, sink) := s.sink.write bytes
    (ok, { s with sink := sink })

/-- The session after the steps, up to the first that fails, and whether
all succeeded. -/
def steps (s : Session) : List Action → Bool × Session
  | [] => (true, s)
  | action :: rest =>
    match s.step action with
    | (true, s') => s'.steps rest
    | (false, s') => (false, s')

end Session

/-- How a listing ended. -/
structure Outcome where
  failure? : Option InspectError
  session : Session
deriving DecidableEq, Repr

/-- Play a script into a sink. -/
def Script.play (script : Script) (sink : Sink) : Outcome :=
  match (Session.start sink).steps script.actions with
  | (true, session) => ⟨script.failure?, session⟩
  | (false, session) => ⟨some .outputFull, session⟩

end GoInventory
