import GoInventory.Source.Diagnostic
import GoInventory.TypeText

/-!
# Errors of an inspection

Why an inventory could not be taken: a setting is malformed, a file cannot be
read or parsed, a type has no canonical text, or the output is full. Each error
has a message; an error that wraps another one also has a chain, in which the
cause is written once more after the message.
-/

namespace GoInventory

/-- Why a file gives no text. -/
inductive ReadError where
  | notFound
  | notDirectory
  | isDirectory
  | notText
  | system (code : Nat) (text : String)
deriving DecidableEq, Repr

/-- The wording of the system. -/
def ReadError.message : ReadError → String
  | notFound => "No such file or directory (os error 2)"
  | notDirectory => "Not a directory (os error 20)"
  | isDirectory => "Is a directory (os error 21)"
  | notText => "stream did not contain valid UTF-8"
  | system code text => s!"{text} (os error {code})"

/-- Why an inspection failed. -/
inductive InspectError where
  | read (path : String) (cause : ReadError)
  | parse (path : String) (position : Position) (failure : ParseFailure)
  | invalidPattern
  | unknownColumn (spec : String)
  | unsupportedType (cause : UnsupportedType)
  | outputFull
deriving DecidableEq, Repr

namespace InspectError

/-- What a full output says. -/
def outputCause : String := "limit reached"

/-- The wording of the error. -/
def message : InspectError → String
  | read path cause => path ++ ": " ++ cause.message
  | parse path position failure =>
    path ++ ":" ++ position.text ++ ": " ++ failure.message
  | invalidPattern => "invalid pattern: not a regular expression"
  | unknownColumn spec => "unknown column: " ++ spec
  | unsupportedType cause => cause.message
  | outputFull => "writing output: " ++ outputCause

/-- The message, and after it the cause if the error wraps one. -/
def chain (e : InspectError) : String :=
  match e with
  | read _ cause => e.message ++ ": " ++ cause.message
  | parse _ _ failure => e.message ++ ": " ++ failure.message
  | outputFull => e.message ++ ": " ++ outputCause
  | invalidPattern | unknownColumn _ | unsupportedType _ => e.message

end InspectError

end GoInventory
