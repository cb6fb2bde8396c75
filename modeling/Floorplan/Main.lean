import Floorplan.Command.Run

/-!
# Floorplan.Main

The program: reads the files that the command line names, and prints or writes what the request
comes to.
-/

namespace Floorplan
namespace Command

/-- The number of a system error, which some calls give with a minus sign. -/
def errorNumber (code : UInt32) : UInt32 := min code (-code)

def faultOf : IO.Error → FileFault
  | .inappropriateType _ code _ => if errorNumber code = 20 then .notDirectory else .isDirectory
  | .invalidArgument _ code _ => if errorNumber code = 36 then .nameTooLong else .notFound
  | _ => .notFound

def readFile (path : String) : IO (Except FileFault (List UInt8)) := do
  match Path.fault? path with
  | some fault => return .error fault
  | none =>
    try
      let bytes ← IO.FS.readBinFile path
      return .ok bytes.toList
    catch e => return .error (faultOf e)

def writeFile (path text : String) : IO (Except FileFault Unit) := do
  match Path.fault? path with
  | some fault => return .error fault
  | none =>
    try
      IO.FS.writeFile path text
      return .ok ()
    catch e => return .error (faultOf e)

/-- The files that a request reads, each read once. -/
def readerFor (r : Request) : IO Reader := do
  let input ← readFile r.input
  let config ← readFile (r.config.getD "")
  return fun path => if path == r.input then input else config

def perform : Action → IO (Option Failure)
  | .print text => do
    IO.print text
    return none
  | .write path text => do
    match ← writeFile path text with
    | .ok () => return none
    | .error cause => return some (.outputUnmade path cause)

def complain (failure : Failure) : IO UInt32 := do
  IO.eprintln (": ".intercalate ("Error" :: failure.chain))
  return 1

def program (arguments : List String) : IO UInt32 := do
  match Request.parse arguments with
  | .error refusal =>
    if refusal = .help || refusal = .version then
      IO.println refusal.message
      return 0
    else
      IO.eprintln ("error: " ++ refusal.message)
      return 2
  | .ok request =>
    match plan (← readerFor request) request with
    | .error failure => complain failure
    | .ok action =>
      match ← perform action with
      | some failure => complain failure
      | none => return 0

end Command
end Floorplan

def main (arguments : List String) : IO UInt32 :=
  Floorplan.Command.program arguments
