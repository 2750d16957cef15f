import FirmwareSymbols.CommandLine.Run

/-!
# The command line

Reads the files that the options name, runs, prints and exits.
-/

namespace FirmwareSymbols

/-- Why a file could not be read. That a directory is not a file comes up only when it is read, so no path
is given then. -/
def obstacle : IO.Error → Files.Obstacle
  | .noFileOrDirectory .. => .missing
  | .inappropriateType (some _) .. => .notDirectory
  | .inappropriateType none .. => .isDirectory
  | .invalidArgument _ 22 _ => .containsNull
  | .invalidArgument .. => .tooLong
  | .permissionDenied .. => .other "Permission denied (os error 13)"
  | error => .other (toString error)

/-- What a file holds, or why it cannot be read. -/
def readFile (name : String) : IO (Except Files.Obstacle (Array UInt8)) := do
  match ← (IO.FS.readBinFile name).toBaseIO with
  | .ok contents => return .ok contents.data
  | .error error => return .error (obstacle error)

/-- What is said when a command line is refused. -/
def usage : String :=
  "usage: [--vx N] [--endian big|little] [--config FILE] [--known-address ADDRESS]... [--quick] "
    ++ "[--sequential] [--time-budget-ms N] [--max-file-size N] [--json] [--log-json] [-v]... FIRMWARE"

/-- Runs with the files that the options name and prints the outcome. -/
def runOptions (options : Options) : IO UInt32 := do
  let names := options.firmware :: options.configFile.toList
  let contents ← names.mapM readFile
  let files : Files := fun name =>
    ((names.zip contents).lookup name).getD (.error .missing)
  let outcome := options.run files
  IO.print outcome.standardOutput
  IO.eprint outcome.standardError
  return outcome.status.code

end FirmwareSymbols

def main (arguments : List String) : IO UInt32 := do
  match FirmwareSymbols.Options.parse? arguments with
  | some options => FirmwareSymbols.runOptions options
  | none =>
    IO.eprintln FirmwareSymbols.usage
    return 2
