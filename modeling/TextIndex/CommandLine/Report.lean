import TextIndex.CommandLine.Options
import TextIndex.Index
import TextIndex.Packed.Render
import TextIndex.Plan.Recorder
import TextIndex.Text.Padded

/-!
# What the command line program answers

The program either shows the plan for the structures asked for, call by call, or builds them and
reports what was built, released and compressed, how large each structure is, and how much memory was
held. `respond` is the whole program as a function of the words of the command line, the environment
and the files.
-/

set_option autoImplicit false

namespace TextIndex

/-- A call as the plan shows it. -/
def Event.render {K : Type} [KindName K] : Event K → String
  | .ensure k => s!"EnsureProvider({KindName.name k})"
  | .construct k compressed =>
    s!"Construct \x7b kind: {KindName.name k}, compressed: {compressed} \x7d"
  | .discard k intermediate =>
    s!"Discard \x7b kind: {KindName.name k}, intermediate: {intermediate} \x7d"
  | .protect k => s!"Protect({KindName.name k})"
  | .unprotect k => s!"Unprotect({KindName.name k})"
  | .compress k => s!"Compress({KindName.name k})"

namespace CommandLine

/-- Why a file is not read. -/
inductive FileError where
  | notFound
  | notADirectory
  | isADirectory
  | nameTooLong
  | permissionDenied
  | other (message : String)
deriving DecidableEq, Repr

def FileError.message : FileError → String
  | .notFound => "No such file or directory (os error 2)"
  | .notADirectory => "Not a directory (os error 20)"
  | .isADirectory => "Is a directory (os error 21)"
  | .nameTooLong => "File name too long (os error 36)"
  | .permissionDenied => "Permission denied (os error 13)"
  | .other message => message

/-- How the program ends. -/
inductive Outcome where
  /-- Everything was done; the lines are shown. -/
  | finished (lines : List String)
  /-- Something failed, for a cause that may have been named. -/
  | failed (message : String) (cause : Option String)
  /-- The command line was not accepted; a value that is not understood has a reason. -/
  | rejected (reason : Option String)
deriving DecidableEq, Repr

namespace Outcome

/-- The exit status. -/
def status : Outcome → Nat
  | finished _ => 0
  | failed _ _ => 1
  | rejected _ => 2

/-- What goes to the standard output. -/
def output : Outcome → String
  | finished lines => String.join (lines.map (· ++ "\n"))
  | failed _ _ | rejected _ => ""

/-- What goes to the standard error. -/
def diagnostics : Outcome → String
  | finished _ => ""
  | failed message none => s!"Error: {message}\n"
  | failed message (some cause) => s!"Error: {message}\n\nCaused by:\n    {cause}\n"
  | rejected none => "error: the command line is not understood\n"
  | rejected (some reason) => s!"error: {reason}\n"

end Outcome

/-- Name and version of the program. -/
def versionLine : String := "ds_build 0.1.0"

/-- What can stand on the command line. -/
def helpLines : List String := [
  "Builds index structures over a text within little memory.",
  "",
  "Usage: ds_build [OPTIONS]",
  "",
  "Options:",
  "  -i, --input <INPUT>        Text file to index",
  "  -g, --generate <GENERATE>  Generated text: fibonacci:N, thue-morse:LEN,",
  "                             runs:ALPHABET:RUN:LEN or random:LEN:SIGMA:SEED",
  "      --ds <KINDS>           Structures to build, comma separated [env: DS_BUILD_KINDS]",
  "      --compress <COMPRESS>  When to compress structures [env: DS_BUILD_COMPRESS]",
  "      --width <WIDTH>        Bits per entry of uncompressed structures [env: DS_BUILD_WIDTH]",
  "      --plan                 Only show what would be done",
  "      --show <SHOW>          Show the first entries of every structure",
  "  -h, --help                 Show this list",
  "  -V, --version              Show the version"]

/-- A stopped run: the failure of the manager, if it is one, is the cause. -/
def Outcome.ofConstructError (e : Index.ConstructError) : Outcome :=
  .failed e.message <| match e with
    | .manager _ cause => some cause.message
    | _ => none

/-- The plan for the given kinds. -/
def planReport (kinds : List Kind) (mode : Mode) : Outcome :=
  match constructAll Kind.registry Recorder.manager kinds mode (.new none) with
  | .ok schedule r =>
    .finished (r.events.map Event.render ++ [s!"peak live structures: {schedule.peakLive}"])
  | .error e _ => .failed e.message none

/-- Size of one structure and, if asked for, its first entries. -/
def structureLines (entriesShown : Nat) (k : Kind) (v : PackedVector) : List String :=
  let name := { alignment := .right, breadth := 4 : Text.Field }.place k.name
  let size :=
    s!"{name}: {v.length} entries, {v.width.bits} bits each, {v.heapBytes} bytes"
  if entriesShown = 0 then [size]
  else [size, "      " ++ bracketed (v.numerals.take entriesShown)]

/-- The account of a finished build. -/
def buildReport (o : Options) (schedule : Schedule Kind) (ix : Index) : Outcome :=
  match o.kinds.find? fun k => (ix.get? k).isNone with
  | some k => .failed s!"{k.name} was requested but is not live" none
  | none =>
    .finished <|
      [s!"constructed: {nameList schedule.constructed}",
        s!"discarded:   {nameList schedule.discarded}",
        s!"compressed:  {nameList schedule.compressed}"] ++
      o.kinds.flatMap (fun k => ((ix.get? k).map (structureLines o.entriesShown k)).getD []) ++
      [s!"memory: {ix.store.stats.current} bytes held, {ix.store.stats.peak} bytes peak"]

/-- Builds the structures asked for over a text. -/
def build (o : Options) (bytes : Array UInt8) : Outcome :=
  match Index.new bytes { fullWidth := o.width, mode := o.mode } with
  | .error e => .failed e.message none
  | .ok ix =>
    match Index.construct o.kinds ix with
    | .ok schedule ix => buildReport o schedule ix
    | .error e _ => .ofConstructError e

/-- Carries out the options. A file is read only if something is to be built over it. -/
def carryOut (o : Options) (files : String → Except FileError (Array UInt8)) : Outcome :=
  if o.planOnly then planReport o.kinds o.mode
  else
    match o.input with
    | none => build o o.source.bytes.toArray
    | some path =>
      match files path with
      | .ok bytes => build o bytes
      | .error e => .failed s!"reading {path}" (some e.message)

/-- The program. -/
def respond (words : List String) (environment : String → Option String)
    (files : String → Except FileError (Array UInt8)) : Outcome :=
  match Options.read words environment with
  | .ok o => carryOut o files
  | .error .version => .finished [versionLine]
  | .error .help => .finished helpLines
  | .error .misuse => .rejected none
  | .error (.invalidValue reason) => .rejected (some reason)

end CommandLine

end TextIndex
