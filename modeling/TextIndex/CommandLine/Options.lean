import TextIndex.CommandLine.Source
import TextIndex.Plan.Mode
import TextIndex.Structure.Kind

/-!
# Options of the command line

An option is given as `--name value` or `--name=value`, two of them also by a letter, as `-i value`,
`-ivalue` or `-i=value`. A word that begins with a dash is never taken for a value. A value is read
when the next option begins or the line ends, so its fault is reported then; a word that is no option
at all is reported before it. Asking for the version or for help ends the reading there, once that
value has been read. Three options take their value from the environment when the line does
not give them.
-/

set_option autoImplicit false

namespace TextIndex.CommandLine

/-- What the program is to do. -/
structure Options where
  /-- File to index; where there is none, a text is generated. -/
  input : Option String
  source : Source
  kinds : List Kind
  mode : Mode
  width : Nat
  /-- Only show what would be done. -/
  planOnly : Bool
  /-- How many entries of each structure are shown. -/
  entriesShown : Nat
deriving Repr

/-- Why a command line is not carried out. -/
inductive Refusal where
  /-- The line is not understood. -/
  | misuse
  /-- A value is not understood, for the given reason. -/
  | invalidValue (reason : String)
  /-- Only the version was asked for. -/
  | version
  /-- Only the list of options was asked for. -/
  | help
deriving DecidableEq, Repr

/-- Options that take a value. -/
inductive OptionName where
  | input
  | generate
  | kinds
  | compress
  | width
  | entriesShown
deriving DecidableEq, Repr

/-- Words of the command line that are not values. -/
inductive Word where
  | option (name : OptionName) (attached : Option String)
  | plan
  | version
  | help
  | separator
  | unknown
deriving DecidableEq, Repr

/-- The values read so far. -/
structure Given where
  input : Option String := none
  source : Option Source := none
  kinds : Option (List Kind) := none
  mode : Option Mode := none
  width : Option Nat := none
  planOnly : Bool := false
  entriesShown : Option Nat := none

/-- Reading a command line: the values read so far, the option whose value is still to be read, with
that value once it is there, and whether only positional words may follow. -/
structure Reading where
  given : Given := {}
  pending : Option (OptionName × Option String) := none
  separated : Bool := false

/-! ## Values -/

/-- Reads a list of kinds separated by commas; each piece has to be one. -/
def readKinds (s : String) : Except Refusal (List Kind) :=
  (Text.pieces ',' s).mapM fun piece =>
    match Kind.ofString? piece with
    | some k => .ok k
    | none => .error (.invalidValue (Kind.unknownMessage piece))

/-- Reads a mode. -/
def readMode (s : String) : Except Refusal Mode :=
  match Mode.ofString? s with
  | some m => .ok m
  | none => .error (.invalidValue Mode.unknownMessage)

/-- Reads a width from 0 to 255. -/
def readWidth (s : String) : Except Refusal Nat :=
  match Text.readInt (UInt64.size / 2) (UInt64.size / 2 - 1) s with
  | .error e => .error (.invalidValue e.message)
  | .ok n =>
    if 0 ≤ n ∧ n ≤ 255 then .ok n.toNat else .error (.invalidValue s!"{n} is not in 0..=255")

/-- Reads a number of entries. -/
def readCount (s : String) : Except Refusal Nat :=
  match Text.readNat (UInt64.size - 1) s with
  | .error e => .error (.invalidValue e.message)
  | .ok n => .ok n

/-- Reads the specification of a generated text. -/
def readSource (s : String) : Except Refusal Source :=
  match Source.ofString? s with
  | .error e => .error (.invalidValue e.message)
  | .ok source => .ok source

/-- An option that can be given once only has no value yet. -/
def once {α : Type} (old : Option α) : Except Refusal Unit :=
  if old.isSome then .error .misuse else .ok ()

/-- Reads the value of an option. Lists of kinds add up; every other option can be given once. -/
def Given.accept (g : Given) (name : OptionName) (value : String) : Except Refusal Given :=
  match name with
  | .input => do
    once g.input
    if value.isEmpty then throw .misuse
    return { g with input := value }
  | .generate => do
    once g.source
    return { g with source := ← readSource value }
  | .kinds => do
    return { g with kinds := g.kinds.getD [] ++ (← readKinds value) }
  | .compress => do
    once g.mode
    return { g with mode := ← readMode value }
  | .width => do
    once g.width
    return { g with width := ← readWidth value }
  | .entriesShown => do
    once g.entriesShown
    return { g with entriesShown := ← readCount value }

/-! ## Words -/

/-- The option of a long name. -/
def OptionName.ofLong? : String → Option OptionName
  | "input" => some .input
  | "generate" => some .generate
  | "ds" => some .kinds
  | "compress" => some .compress
  | "width" => some .width
  | "show" => some .entriesShown
  | _ => none

/-- The option of a letter. -/
def OptionName.ofLetter? : Char → Option OptionName
  | 'i' => some .input
  | 'g' => some .generate
  | _ => none

/-- Reads what follows two dashes: a name and, after an equals sign, a value. -/
def Word.ofLong (body : List Char) : Word :=
  let name := String.ofList (body.takeWhile (· ≠ '='))
  let attached := match body.dropWhile (· ≠ '=') with
    | [] => none
    | _ :: value => some (String.ofList value)
  match OptionName.ofLong? name, name, attached with
  | some named, _, _ => .option named attached
  | none, "plan", none => .plan
  | none, "version", none => .version
  | none, "help", none => .help
  | none, _, _ => .unknown

/-- Reads what follows one dash: a letter and, for an option, its value at once, where an equals sign
between them is passed over. -/
def Word.ofShort (letter : Char) (body : List Char) : Word :=
  match OptionName.ofLetter? letter with
  | some named =>
    .option named <| match body with
      | [] => none
      | '=' :: value => some (String.ofList value)
      | value => some (String.ofList value)
  | none =>
    match letter with
    | 'V' => .version
    | 'h' => .help
    | _ => .unknown

/-- Tells what a word is; a word without a dash, or a dash alone, is a value. -/
def Word.ofString? (s : String) : Option Word :=
  match s.toList with
  | ['-', '-'] => some .separator
  | '-' :: '-' :: body => some (.ofLong body)
  | '-' :: letter :: body => some (.ofShort letter body)
  | _ => none

/-! ## The whole line -/

/-- Reads the value that is still to be read. -/
def Reading.settle (r : Reading) : Except Refusal Reading :=
  match r.pending with
  | none => .ok r
  | some (_, none) => .error .misuse
  | some (name, some value) => do
    return { r with given := ← r.given.accept name value, pending := none }

/-- Takes one word of the line. -/
def Reading.take (r : Reading) (s : String) : Except Refusal Reading :=
  if r.separated then .error .misuse
  else
    match Word.ofString? s with
    | some .separator => .ok { r with separated := true }
    | some .unknown => .error .misuse
    | some .version => do
      let _ ← r.settle
      throw .version
    | some .help => do
      let _ ← r.settle
      throw .help
    | some .plan => do
      let r ← r.settle
      if r.given.planOnly then throw .misuse
      return { r with given := { r.given with planOnly := true } }
    | some (.option name (some value)) => do
      let r ← r.settle
      return { r with given := ← r.given.accept name value }
    | some (.option name none) => do
      let r ← r.settle
      return { r with pending := some (name, none) }
    | none =>
      match r.pending with
      | some (name, none) => .ok { r with pending := some (name, some s) }
      | _ => .error .misuse

/-- Reads an option from the environment, if the line has not given it. -/
def Given.fallBack (g : Given) (absent : Bool) (name : OptionName) (value : Option String) :
    Except Refusal Given :=
  match absent, value with
  | true, some v => g.accept name v
  | _, _ => .ok g

/-- Values from the environment for the three options that have one. -/
def Given.fromEnvironment (g : Given) (environment : String → Option String) :
    Except Refusal Given := do
  let g ← g.fallBack g.kinds.isNone .kinds (environment "DS_BUILD_KINDS")
  let g ← g.fallBack g.mode.isNone .compress (environment "DS_BUILD_COMPRESS")
  g.fallBack g.width.isNone .width (environment "DS_BUILD_WIDTH")

/-- The options with what has not been given filled in. A file and a generated text exclude each
other. -/
def Given.complete (g : Given) : Except Refusal Options :=
  if g.input.isSome ∧ g.source.isSome then .error .misuse
  else .ok {
    input := g.input
    source := g.source.getD (.fibonacci 20)
    kinds := g.kinds.getD [.lcp]
    mode := g.mode.getD .delayed
    width := g.width.getD 32
    planOnly := g.planOnly
    entriesShown := g.entriesShown.getD 0 }

/-- Reads a command line. -/
def Options.read (words : List String) (environment : String → Option String) :
    Except Refusal Options := do
  let reading ← words.foldlM Reading.take {}
  let reading ← reading.settle
  let given ← reading.given.fromEnvironment environment
  given.complete

end TextIndex.CommandLine
