import Datapath.Cli.Run

/-!
# The command line program

Runs the program on the machine's files and streams.
-/

open Datapath Datapath.Cli

/-- An error of the operating system. Some calls report its number with the sign changed. -/
def systemError (number : UInt32) (text : String) : FileError :=
  match (min number (0 - number)).toNat with
  | 6 => .noDevice
  | 13 => .permissionDenied
  | 20 => .notDirectory
  | 21 => .isDirectory
  | 28 => .noSpace
  | 36 => .nameTooLong
  | other => .ofSystem text other

/-- What went wrong with a file. -/
def fileError (error : IO.Error) : FileError :=
  match error with
  | .noFileOrDirectory .. => .notFound
  | .alreadyExists _ number text | .otherError number text | .resourceBusy number text
  | .resourceVanished number text | .unsupportedOperation number text
  | .hardwareFault number text | .unsatisfiedConstraints number text
  | .illegalOperation number text | .protocolError number text | .timeExpired number text
  | .interrupted _ number text | .invalidArgument _ number text
  | .permissionDenied _ number text | .resourceExhausted _ number text
  | .inappropriateType _ number text | .noSuchThing _ number text =>
    systemError number text
  | .userError _ | .unexpectedEof => .notText

/-- The machine's files. -/
def machineFiles : Files IO where
  read path := do
    try
      return .ok (← IO.FS.readFile path)
    catch error =>
      return .error (fileError error)
  write path text := do
    try
      IO.FS.writeFile path text
      return .ok ()
    catch error =>
      return .error (fileError error)

/-- Runs the program. -/
def main (words : List String) : IO UInt32 := do
  let outcome ← run machineFiles words
  IO.print outcome.stdout
  IO.eprint outcome.stderr
  return outcome.exitCode.toUInt32
