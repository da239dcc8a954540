import Datapath.Cli.Files

/-!
# A machine in memory

A file system as a value: a tree of folders that is the same on every machine, devices, and files,
which can be added anywhere in the tree. Paths are walked part by part, from the top or from the
working folder.
-/

namespace Datapath.Cli

/-- Something among the files that is none. -/
inductive Device where
  /-- Is empty and forgets what is written to it. -/
  | null
  /-- Never ends and forgets what is written to it. -/
  | endless
  /-- Never ends and has no room. -/
  | full
  /-- The terminal of a program that has none. -/
  | terminal
  /-- Standard input, which is empty. -/
  | input
  /-- Standard output. -/
  | output
  /-- Standard error. -/
  | error
  deriving DecidableEq, Repr

/-- A place in the tree: the names on the way to it from the top. -/
abbrev Place := List String

/-- What stands at a place. -/
inductive Entry where
  | folder
  | device (device : Device)
  | file (text : String)
  deriving DecidableEq, Repr

/-- The files of a machine and what its standard streams have been given through paths. -/
structure Machine where
  files : List (Place × String) := []
  stdout : String := ""
  stderr : String := ""
  deriving DecidableEq, Repr

namespace Machine

/-- The folder in which the program runs. -/
def workingFolder : Place :=
  ["tmp", "work"]

/-- The folders of the tree. -/
def folders : List Place :=
  [[], workingFolder]
    ++ ["bin", "boot", "dev", "etc", "home", "lib", "lib64", "media", "mnt", "opt", "proc", "root",
      "run", "sbin", "srv", "sys", "tmp", "usr", "var"].map ([·])
    ++ ["fd", "mqueue", "pts", "shm"].map (["dev", ·])
    ++ ["bin", "include", "lib", "local", "sbin", "share", "src"].map (["usr", ·])
    ++ ["cache", "lib", "log", "spool", "tmp"].map (["var", ·])
    ++ [["proc", "self"], ["proc", "self", "fd"]]

/-- The devices of the tree. -/
def devices : List (Place × Device) :=
  let streams : List (String × Device) := [("0", .input), ("1", .output), ("2", .error)]
  [(["dev", "null"], .null), (["dev", "zero"], .endless), (["dev", "random"], .endless),
    (["dev", "urandom"], .endless), (["dev", "full"], .full), (["dev", "tty"], .terminal),
    (["dev", "stdin"], .input), (["dev", "stdout"], .output), (["dev", "stderr"], .error)]
    ++ streams.map (fun (name, stream) => (["dev", "fd", name], stream))
    ++ streams.map (fun (name, stream) => (["proc", "self", "fd", name], stream))

/-- What stands at a place, if anything does. -/
def entry? (machine : Machine) (place : Place) : Option Entry :=
  if folders.contains place then
    some .folder
  else
    match devices.lookup place with
    | some device => some (.device device)
    | none => (machine.files.lookup place).map .file

/-- The longest name, in bytes. -/
def longestName : Nat :=
  255

/-- The longest path, in bytes. -/
def longestPath : Nat :=
  4095

/-- Refuses a name that is too long. -/
def checkName (name : String) : Except FileError Unit :=
  if longestName < name.utf8ByteSize then throw .nameTooLong else pure ()

/-- Goes from a folder to the folder that a part of a path names. There is nothing above the top. -/
def enter (machine : Machine) (place : Place) (part : String) : Except FileError Place := do
  if part == "" || part == "." then
    return place
  else if part == ".." then
    return place.dropLast
  else
    checkName part
    match machine.entry? (place ++ [part]) with
    | some .folder => return place ++ [part]
    | some _ => throw .notDirectory
    | none => throw .notFound

/-- What a path leads to. -/
inductive Target where
  /-- A folder that has no name where the path ends. -/
  | folder
  /-- A name in a folder, whether or not anything has it, and whether a slash follows it. -/
  | named (place : Place) (name : String) (slashed : Bool)
  deriving DecidableEq, Repr

/-- Walks a path. The folders on the way have to be there. -/
def walk (machine : Machine) (path : String) : Except FileError Target := do
  if path.isEmpty then
    throw .notFound
  if longestPath < path.utf8ByteSize then
    throw .nameTooLong
  let start := if path.startsWith "/" then [] else workingFolder
  let parts := (path.splitOn "/").reverse
  match parts.dropWhile (· == "") with
  | [] => return .folder
  | last :: way =>
    let place ← way.reverse.foldlM machine.enter start
    if last == "." || last == ".." then
      return .folder
    else
      return .named place last (parts.head? == some "")

/-- The text of a device. -/
def readDevice : Device → Except FileError String
  | .null | .input | .output | .error => pure ""
  | .endless | .full => throw .outOfMemory
  | .terminal => throw .noDevice

/-- The text that a path leads to. -/
def read (machine : Machine) (path : String) : Except FileError String := do
  match ← machine.walk path with
  | .folder => throw .isDirectory
  | .named place name slashed =>
    checkName name
    match machine.entry? (place ++ [name]) with
    | none => throw .notFound
    | some .folder => throw .isDirectory
    | some (.device device) => if slashed then throw .notDirectory else readDevice device
    | some (.file text) => if slashed then throw .notDirectory else pure text

/-- The machine once a device has been given a text. -/
def writeDevice (machine : Machine) (device : Device) (text : String) : Except FileError Machine :=
  match device with
  | .null | .endless | .input => pure machine
  | .full => throw .noSpace
  | .terminal => throw .noDevice
  | .output => pure { machine with stdout := machine.stdout ++ text }
  | .error => pure { machine with stderr := machine.stderr ++ text }

/-- The machine with a file's text replaced, or with another file. -/
def writeFile (machine : Machine) (place : Place) (text : String) : Machine :=
  { machine with files := machine.files.filter (·.1 != place) ++ [(place, text)] }

/-- The machine once a path has been given a text. A slash after a name asks for a folder, and none
is ever made. -/
def write (machine : Machine) (path text : String) : Except FileError Machine := do
  match ← machine.walk path with
  | .folder | .named _ _ true => throw .isDirectory
  | .named place name false =>
    checkName name
    match machine.entry? (place ++ [name]) with
    | some .folder => throw .isDirectory
    | some (.device device) => machine.writeDevice device text
    | some (.file _) | none => pure (machine.writeFile (place ++ [name]) text)

/-- A machine with given files in the working folder. -/
def ofFiles (files : List (String × String)) : Machine where
  files := files.map fun (name, text) => (workingFolder ++ [name], text)

/-- The files in the working folder. -/
def workingFiles (machine : Machine) : List (String × String) :=
  machine.files.filterMap fun (place, text) =>
    match place.getLast? with
    | some name => if place == workingFolder ++ [name] then some (name, text) else none
    | none => none

/-- The files of a machine that is passed along. -/
def access : Files (StateM Machine) where
  read path := return (← get).read path
  write path text := do
    match (← get).write path text with
    | .ok machine =>
      set machine
      return .ok ()
    | .error error => return .error error

end Machine

end Datapath.Cli
