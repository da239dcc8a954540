import Datapath.Toml.Reader

/-!
# Strings

Strings come with escapes between double quotes or as they stand between single quotes, on one line
or, between three quotes, on several.
-/

namespace Datapath.Toml.Reader

/-- Neither arrays and tables inside each other nor the parts of a key may be as many. -/
def depthLimit : Nat :=
  80

/-- The value of a list of hexadecimal digits. -/
def hexadecimalValue (digits : List Char) : Nat :=
  digits.foldl
    (fun value digit =>
      let weight :=
        if digit.isDigit then digit.toNat - '0'.toNat
        else digit.toLower.toNat - 'a'.toNat + 10
      16 * value + weight)
    0

/-- A hexadecimal digit. -/
def isHexadecimal (character : Char) : Bool :=
  character.isDigit || ('a' ≤ character && character ≤ 'f') || ('A' ≤ character && character ≤ 'F')

/-- Takes the digits of a code point. -/
def codePoint (digits : Nat) : Reader Char := do
  let value := hexadecimalValue (← takeExactly digits isHexadecimal)
  if value.isValidChar then return Char.ofNat value else failure

/-- Takes what follows the backslash of an escape. -/
def escape : Reader Char := do
  match ← next with
  | 'b' => return '\x08'
  | 't' => return '\t'
  | 'n' => return '\n'
  | 'f' => return '\x0c'
  | 'r' => return '\r'
  | '"' => return '"'
  | '\\' => return '\\'
  | 'u' => codePoint 4
  | 'U' => codePoint 8
  | _ => failure

/-- Takes the rest of a single-line string with escapes. -/
def basicRest : (fuel : Nat) → Reader (List Char)
  | 0 => failure
  | fuel + 1 => do
    match ← next with
    | '"' => return []
    | '\\' => return (← escape) :: (← basicRest fuel)
    | character =>
      if isTextCharacter character then return character :: (← basicRest fuel) else failure

/-- Takes the rest of a single-line string without escapes. -/
def literalRest : (fuel : Nat) → Reader (List Char)
  | 0 => failure
  | fuel + 1 => do
    match ← next with
    | '\'' => return []
    | character =>
      if isTextCharacter character then return character :: (← literalRest fuel) else failure

/-- Takes blanks and line ends after a backslash at the end of a line. -/
def foldedLines : (fuel : Nat) → Reader Unit
  | 0 => return ()
  | fuel + 1 => do
    blanks
    match ← peek? with
    | some '\n' | some '\r' =>
      newline
      foldedLines fuel
    | _ => return ()

/-- Takes the quotes that end a string on several lines, if they come next, and returns how many
more than three there are: up to two belong to the string. -/
def closingQuotes (quote : Char) : Reader (Option Nat) := do
  let rest ← get
  let quotes := min (rest.takeWhile (· == quote)).length 5
  if quotes < 3 then
    return none
  else
    set (rest.drop quotes)
    return some (quotes - 3)

/-- Takes the rest of a string on several lines, with escapes if the quote is the double one. -/
def multilineRest (quote : Char) : (fuel : Nat) → Reader (List Char)
  | 0 => failure
  | fuel + 1 => do
    match ← closingQuotes quote with
    | some more => return List.replicate more quote
    | none =>
      match ← next with
      | '\n' => return '\n' :: (← multilineRest quote fuel)
      | '\r' =>
        expect '\n'
        return '\n' :: (← multilineRest quote fuel)
      | '\\' =>
        if quote == '"' then
          match ← optional (do blanks; newline) with
          | some () =>
            foldedLines fuel
            multilineRest quote fuel
          | none => return (← escape) :: (← multilineRest quote fuel)
        else
          return '\\' :: (← multilineRest quote fuel)
      | character =>
        if isTextCharacter character then return character :: (← multilineRest quote fuel)
        else failure

/-- Takes a string on one line. -/
def lineString (fuel : Nat) : Reader String := do
  match ← next with
  | '"' => return String.ofList (← basicRest fuel)
  | '\'' => return String.ofList (← literalRest fuel)
  | _ => failure

/-- Takes any string. The line end right after three opening quotes does not belong to it. -/
def anyString (fuel : Nat) : Reader String := do
  if ← accept "\"\"\"" then
    discard (optional newline)
    return String.ofList (← multilineRest '"' fuel)
  else if ← accept "'''" then
    discard (optional newline)
    return String.ofList (← multilineRest '\'' fuel)
  else
    lineString fuel

/-- Takes one part of a key. -/
def simpleKey (fuel : Nat) : Reader String := do
  match ← peek? with
  | some '"' | some '\'' => lineString fuel
  | _ =>
    match ← takeWhile isBareKeyCharacter with
    | [] => failure
    | characters => return String.ofList characters

/-- Takes the parts of a key, separated by dots. -/
def keyParts : (fuel : Nat) → Reader (List String)
  | 0 => failure
  | fuel + 1 => do
    blanks
    let part ← simpleKey fuel
    blanks
    if ← accept "." then return part :: (← keyParts fuel) else return [part]

/-- Takes a key. It must not have too many parts. -/
def key (fuel : Nat) : Reader (List String) := do
  let parts ← keyParts fuel
  if parts.length < depthLimit then return parts else failure

end Datapath.Toml.Reader
