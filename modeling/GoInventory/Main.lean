import GoInventory.CommandLine

/-!
# The program

Reads the files that the command line names, runs it on them, and prints what
it leaves behind.
-/

namespace GoInventory

/-- Why the system could not read a file. -/
def readErrorOf : IO.Error → ReadError
  | .noFileOrDirectory .. => .notFound
  | .inappropriateType _ code details =>
    if code == 21 then .isDirectory
    else if code == 20 then .notDirectory
    else .system code.toNat details
  | .permissionDenied _ code _ => .system code.toNat "Permission denied"
  | e => .system 5 (toString e)

/-- What a path leads to. -/
def readPath (path : String) : IO (Except ReadError (List UInt8)) := do
  if path.isEmpty then
    return .error .notFound
  try
    let bytes ← IO.FS.readBinFile path
    return .ok bytes.toList
  catch e =>
    return .error (readErrorOf e)

/-- The file system that has been read at the given paths. -/
def readPaths (paths : List String) : IO FileSystem := do
  let table ← paths.mapM fun path => return (path, ← readPath path)
  return fun path => (table.lookup path).getD (.error .notFound)

end GoInventory

open GoInventory in
/-- Run the command line. -/
def main (args : List String) : IO UInt32 := do
  let fs ← readPaths (CommandLine.operandFiles args)
  let printed := CommandLine.run fs (← IO.getEnv "RUST_LOG") args
  let stdout ← IO.getStdout
  stdout.write ⟨printed.stdout.toArray⟩
  stdout.flush
  IO.eprint printed.stderr
  return printed.exitCode
