/-!
# Files

What the program needs of a file system, for any monad that offers it, and how that can fail.
-/

namespace Datapath.Cli

/-- Why a file could not be read or written, in words. -/
structure FileError where
  message : String
  deriving DecidableEq, Repr

namespace FileError

/-- An error of the operating system, by its text and number. -/
def ofSystem (text : String) (number : Nat) : FileError where
  message := text ++ " (os error " ++ toString number ++ ")"

/-- There is no such file, or no such folder on the way to it. -/
def notFound : FileError :=
  ofSystem "No such file or directory" 2

/-- A device that is known but not there. -/
def noDevice : FileError :=
  ofSystem "No such device or address" 6

/-- The system does not let the program at a file. -/
def permissionDenied : FileError :=
  ofSystem "Permission denied" 13

/-- A file stands where a path needs a folder. -/
def notDirectory : FileError :=
  ofSystem "Not a directory" 20

/-- A folder stands where a file is needed. -/
def isDirectory : FileError :=
  ofSystem "Is a directory" 21

/-- A device takes no more. -/
def noSpace : FileError :=
  ofSystem "No space left on device" 28

/-- A path, or a part of it, is longer than any name. -/
def nameTooLong : FileError :=
  ofSystem "File name too long" 36

/-- A file does not end before memory does. -/
def outOfMemory : FileError where
  message := "out of memory"

/-- A file's bytes are no text. -/
def notText : FileError where
  message := "stream did not contain valid UTF-8"

end FileError

/-- Reading and writing whole files. -/
structure Files (m : Type → Type) where
  read : String → m (Except FileError String)
  write : String → String → m (Except FileError Unit)

end Datapath.Cli
