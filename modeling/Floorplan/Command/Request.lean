import Floorplan.Text.Numeral

/-!
# Floorplan.Command.Request

The command line: what it asks for, and why it is refused. Arguments are read in order. The value of
an option or a position is looked at only when the next argument settles it, so that an
argument that is not known is noticed before a bad value in front of it.
-/

namespace Floorplan
namespace Command

structure Request where
  input : String
  output : Option String
  name : Option String
  resource : Option Int16
  raw : Bool
  config : Option String
  list : Bool
  verbose : Nat
  quiet : Nat
  deriving DecidableEq

inductive LogLevel where
  | off
  | error
  | warn
  | info
  | debug
  | trace
  deriving DecidableEq

namespace Request

def logLevel (r : Request) : LogLevel :=
  match r.verbose, r.quiet with
  | 0, 0 => .info
  | 1, _ => .debug
  | _, 0 => .trace
  | _, 1 => .warn
  | _, 2 => .error
  | _, _ => .off

end Request

inductive Refusal where
  | conflict
  | help
  | version
  | noValue
  | missing
  | surplusValue
  | unknown
  | badValue
  deriving DecidableEq

def Refusal.message : Refusal → String
  | conflict => "these arguments cannot be used together, or not more than once"
  | help =>
    "Usage: [OPTIONS] <INPUT> [OUTPUT] [NAME]\n\n" ++
    "  <INPUT>          Resource file to read the level from\n" ++
    "  [OUTPUT]         Where to write the map\n" ++
    "  [NAME]           Name of the map, which also picks the level resource\n\n" ++
    "  --resource <ID>  Id of the level resource\n" ++
    "  --raw            Read the input as a bare picture\n" ++
    "  --config <FILE>  TOML file with conversion settings\n" ++
    "  --list           List the resources of the input and exit\n" ++
    "  -v, --verbose    Log more, can be repeated\n" ++
    "  -q, --quiet      Log less, can be repeated\n" ++
    "  -h, --help       Print help\n" ++
    "  -V, --version    Print version"
  | version => "0.1.0"
  | noValue => "an argument lacks its value"
  | missing => "a required argument is missing"
  | surplusValue => "a value was given to an argument that takes none"
  | unknown => "unexpected argument"
  | badValue => "invalid value for `--resource`"

inductive Flag where
  | raw
  | list
  | verbose
  | quiet
  | help
  | version
  deriving DecidableEq

inductive Setting where
  | resource
  | config
  deriving DecidableEq

inductive LongOption where
  | flag (flag : Flag)
  | setting (setting : Setting)
  deriving DecidableEq

def longOption? : String → Option LongOption
  | "raw" => some (.flag .raw)
  | "list" => some (.flag .list)
  | "verbose" => some (.flag .verbose)
  | "quiet" => some (.flag .quiet)
  | "help" => some (.flag .help)
  | "version" => some (.flag .version)
  | "resource" => some (.setting .resource)
  | "config" => some (.setting .config)
  | _ => none

def shortFlag? : Char → Option Flag
  | 'v' => some .verbose
  | 'q' => some .quiet
  | 'h' => some .help
  | 'V' => some .version
  | _ => none

/-- The places that arguments without a dash fill in order. -/
inductive Place where
  | input
  | output
  | name
  deriving DecidableEq

inductive Pending where
  | position (place : Place) (value : String)
  | setting (setting : Setting) (value : Option String)
  deriving DecidableEq

structure Reading where
  input : Option String
  output : Option String
  name : Option String
  resource : Option Int16
  config : Option String
  raw : Bool
  list : Bool
  verbose : Nat
  quiet : Nat
  pending : Option Pending
  free : List Place
  /-- Whether `--` was met, behind which nothing is an option. -/
  trailing : Bool
  deriving DecidableEq

namespace Reading

def start : Reading :=
  ⟨none, none, none, none, none, false, false, 0, 0, none, [.input, .output, .name], false⟩

/-- A path, which is never empty. -/
def path (value : String) : Except Refusal String :=
  if value = "" then .error .noValue else .ok value

def fill (r : Reading) (value : String) : Place → Except Refusal Reading
  | .input => do return { r with input := some (← path value) }
  | .output => do return { r with output := some (← path value) }
  | .name => .ok { r with name := some value }

/-- The id of a resource, a numeral of 16 bits with its sign. -/
def resourceId (value : String) : Except Refusal Int16 :=
  match Numeral.signed? (-32768) 32767 value with
  | some n => .ok (Int16.ofInt n)
  | none => .error .badValue

/-- Takes the value of an option, which may be given once. -/
def assign (r : Reading) (value : String) : Setting → Except Refusal Reading
  | .resource =>
    if r.resource.isSome then .error .conflict
    else do return { r with resource := some (← resourceId value) }
  | .config =>
    if r.config.isSome then .error .conflict
    else do return { r with config := some (← path value) }

def settle (r : Reading) : Except Refusal Reading :=
  let settled := { r with pending := none }
  match r.pending with
  | none => .ok r
  | some (.position place value) => settled.fill value place
  | some (.setting setting (some value)) => settled.assign value setting
  | some (.setting _ none) => .error .noValue

/-- Takes an option that stands alone; those that are not counted may be given once. -/
def raise (r : Reading) (flag : Flag) : Except Refusal Reading := do
  let r ← r.settle
  match flag with
  | .raw => if r.raw then .error .conflict else .ok { r with raw := true }
  | .list => if r.list then .error .conflict else .ok { r with list := true }
  | .verbose => .ok { r with verbose := min (r.verbose + 1) 255 }
  | .quiet => .ok { r with quiet := min (r.quiet + 1) 255 }
  | .help => .error .help
  | .version => .error .version

/-- Takes the letters of a bundle of short options. -/
def raiseAll (r : Reading) : List Char → Except Refusal Reading
  | [] => .ok r
  | c :: rest =>
    match shortFlag? c with
    | none => .error .unknown
    | some flag =>
      match r.raise flag with
      | .error e => .error e
      | .ok r => raiseAll r rest

/-- Takes a long option, from behind its dashes. -/
def takeLong (r : Reading) (cs : List Char) : Except Refusal Reading :=
  let name := String.ofList (cs.takeWhile (· != '='))
  let attached := cs.dropWhile (· != '=')
  match longOption? name with
  | none => .error .unknown
  | some (.flag flag) => if attached.isEmpty then r.raise flag else .error .surplusValue
  | some (.setting setting) => do
    let r ← r.settle
    if attached.isEmpty then return { r with pending := some (.setting setting none) }
    else r.assign (String.ofList (attached.drop 1)) setting

def takePosition (r : Reading) (value : String) : Except Refusal Reading :=
  match r.free with
  | [] => .error .unknown
  | place :: free => do
    let r ← r.settle
    return { r with pending := some (.position place value), free }

/-- Whether a text is a number without its sign: digits, of which the first is followed by at most
one point and after it at most one exponent. -/
def isNumber (cs : List Char) : Bool :=
  let isMark (c : Char) : Bool := c == 'e' || c == 'E'
  let mantissa := cs.takeWhile (!isMark ·)
  let exponent := (cs.dropWhile (!isMark ·)).drop 1
  let whole := mantissa.takeWhile (· != '.')
  let fraction := (mantissa.dropWhile (· != '.')).drop 1
  whole.all Char.isDigit && fraction.all Char.isDigit && exponent.all Char.isDigit &&
    (!whole.isEmpty || cs.isEmpty) && (!exponent.isEmpty || mantissa.length == cs.length)

/-- Takes a value for the option that waits for one, or else fills a place. -/
def takeValue (r : Reading) (value : String) : Except Refusal Reading :=
  match r.pending with
  | some (.setting setting none) =>
    .ok { r with pending := some (.setting setting (some value)) }
  | _ => r.takePosition value

def take (r : Reading) (argument : String) : Except Refusal Reading :=
  if r.trailing then r.takePosition argument
  else
    match argument.toList with
    | ['-', '-'] => .ok { r with trailing := true }
    | '-' :: '-' :: cs => r.takeLong cs
    | '-' :: c :: cs =>
      if r.pending = some (.setting .resource none) && isNumber (c :: cs) then
        r.takeValue argument
      else r.raiseAll (c :: cs)
    | _ => r.takeValue argument

def hasConflict (r : Reading) : Bool :=
  r.raw && r.resource.isSome || r.list && r.raw || 0 < r.quiet && 0 < r.verbose

def finish (r : Reading) : Except Refusal Request := do
  let r ← r.settle
  if r.hasConflict then .error .conflict
  else if !r.list && (r.output.isNone || r.name.isNone) then .error .missing
  else
    match r.input with
    | none => .error .missing
    | some input =>
      return ⟨input, r.output, r.name, r.resource, r.raw, r.config, r.list, r.verbose, r.quiet⟩

end Reading

/-- Reads a command line, from behind the name of the program. -/
def Request.parse (arguments : List String) : Except Refusal Request := do
  (← arguments.foldlM Reading.take .start).finish

end Command
end Floorplan
