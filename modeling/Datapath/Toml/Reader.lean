/-!
# Reading characters

A reader takes characters from the front of a text and yields a result, or fails. These are the
small readers from which the grammar of TOML is put together, and its classes of characters.
-/

namespace Datapath.Toml

/-- Takes characters from the front of a text. -/
abbrev Reader := StateT (List Char) Option

namespace Reader

/-- The next character, which stays. -/
def peek? : Reader (Option Char) :=
  return (← get).head?

/-- Takes any character. -/
def next : Reader Char := do
  match ← get with
  | character :: rest =>
    set rest
    return character
  | [] => failure

/-- Takes a character of a class. -/
def satisfy (accept : Char → Bool) : Reader Char := do
  let character ← next
  if accept character then return character else failure

/-- Takes a given character. -/
def expect (character : Char) : Reader Unit :=
  discard (satisfy (· == character))

/-- Takes a given text if it comes next, and says whether it did. -/
def accept (text : String) : Reader Bool :=
  modifyGet fun rest =>
    if text.toList.isPrefixOf rest then (true, rest.drop text.length) else (false, rest)

/-- Takes the characters of a class that come next. -/
def takeWhile (accept : Char → Bool) : Reader (List Char) :=
  modifyGet fun rest => (rest.takeWhile accept, rest.dropWhile accept)

/-- Takes a given number of characters of a class. -/
def takeExactly (count : Nat) (accept : Char → Bool) : Reader (List Char) := do
  let rest ← get
  let taken := rest.take count
  if taken.length = count && taken.all accept then
    set (rest.drop count)
    return taken
  else
    failure

/-- Runs a reader if it succeeds, and otherwise takes nothing. -/
def optional {α : Type} (reader : Reader α) : Reader (Option α) := fun rest =>
  match reader rest with
  | some (result, rest) => some (some result, rest)
  | none => some (none, rest)

end Reader

/-- A space or a tab. -/
def isBlank (character : Char) : Bool :=
  character == ' ' || character == '\t'

/-- A character beyond ASCII. -/
def isBeyondAscii (character : Char) : Bool :=
  0x80 ≤ character.toNat

/-- A printable character of ASCII, the space included. -/
def isPrintableAscii (character : Char) : Bool :=
  0x20 ≤ character.toNat && character.toNat ≤ 0x7e

/-- A character that a comment or a string on one line may hold as it is, a string's delimiters and
escapes apart. -/
def isTextCharacter (character : Char) : Bool :=
  character == '\t' || isPrintableAscii character || isBeyondAscii character

/-- A character of a key without quotes. -/
def isBareKeyCharacter (character : Char) : Bool :=
  character.isAlphanum || character == '_' || character == '-'

namespace Reader

/-- Takes spaces and tabs. -/
def blanks : Reader Unit :=
  discard (takeWhile isBlank)

/-- Takes the end of a line. -/
def newline : Reader Unit := do
  unless ← accept "\n" do
    unless ← accept "\r\n" do
      failure

/-- Takes the rest of a line: a comment perhaps, and the line's end or the text's. -/
def lineEnd : Reader Unit := do
  blanks
  if ← accept "#" then
    discard (takeWhile isTextCharacter)
  match ← peek? with
  | none => return ()
  | some _ => newline

/-- Takes blanks, line ends and comments, as far as the fuel reaches. -/
def trivia : (fuel : Nat) → Reader Unit
  | 0 => return ()
  | fuel + 1 => do
    blanks
    match ← peek? with
    | some '#' | some '\n' | some '\r' =>
      lineEnd
      trivia fuel
    | _ => return ()

end Reader

end Datapath.Toml
