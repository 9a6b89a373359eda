import TextIndex.CommandLine.Report

/-!
# The command line program

Reads the words of the command line, the environment and at most one file, and shows what
`CommandLine.respond` answers.
-/

set_option autoImplicit false

namespace TextIndex.CommandLine

/-- The number of a system error; some calls report it negated. -/
def errorNumber (code : UInt32) : Nat := min code.toNat (0 - code).toNat

/-- The reason in a system error. -/
def FileError.ofSystem (e : IO.Error) : FileError :=
  match e with
  | .noFileOrDirectory .. => .notFound
  | .permissionDenied .. => .permissionDenied
  | .inappropriateType _ code _ => if errorNumber code = 20 then .notADirectory else .isADirectory
  | .invalidArgument _ code _ =>
    if errorNumber code = 36 then .nameTooLong else .other (toString e)
  | e => .other (toString e)

/-- The bytes of a file. -/
def load (path : String) : IO (Except FileError (Array UInt8)) := do
  try
    let bytes ← IO.FS.readBinFile path
    return .ok bytes.data
  catch e => return .error (.ofSystem e)

/-- The file that the options name. -/
def loadInput (words : List String) (environment : String → Option String) :
    IO (Except FileError (Array UInt8)) := do
  match Options.read words environment with
  | .ok { input := some path, planOnly := false, .. } => load path
  | _ => return .error .notFound

end TextIndex.CommandLine

open TextIndex.CommandLine in
def main (words : List String) : IO UInt32 := do
  let values ← ["DS_BUILD_KINDS", "DS_BUILD_COMPRESS", "DS_BUILD_WIDTH"].mapM fun name => do
    return (name, ← IO.getEnv name)
  let environment (name : String) : Option String := (values.lookup name).join
  let content ← loadInput words environment
  let outcome := respond words environment fun _ => content
  IO.print outcome.output
  IO.eprint outcome.diagnostics
  return outcome.status.toUInt32
