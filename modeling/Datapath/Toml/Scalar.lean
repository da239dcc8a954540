import Datapath.Toml.Text
import Datapath.Toml.Value

/-!
# Numbers, dates and truth values

Integers have 64 bits. Dates and times are those of the calendar and the clock, with a leap second.
-/

namespace Datapath.Toml.Reader

/-- Takes digits of a class; single underscores may stand between digits. -/
def digits (isDigit : Char → Bool) : (fuel : Nat) → Reader (List Char)
  | 0 => failure
  | fuel + 1 => do
    let first ← satisfy isDigit
    match ← get with
    | '_' :: rest =>
      set rest
      return first :: (← digits isDigit fuel)
    | character :: _ =>
      if isDigit character then return first :: (← digits isDigit fuel) else return [first]
    | [] => return [first]

/-- The value of digits in a base. -/
def digitsValue (base : Nat) (digits : List Char) : Nat :=
  digits.foldl (fun value digit => base * value + hexadecimalValue [digit]) 0

/-- Passes a number that fits 64 bits with a sign. -/
def checkInteger (number : Int) : Reader Value :=
  if Int64.minValue.toInt ≤ number && number ≤ Int64.maxValue.toInt then return .integer number
  else failure

/-- A digit of a binary number. -/
def isBinary (character : Char) : Bool :=
  character == '0' || character == '1'

/-- A digit of an octal number. -/
def isOctal (character : Char) : Bool :=
  '0' ≤ character && character ≤ '7'

/-- Takes a sign and says whether it is the negative one. -/
def sign : Reader Bool := do
  if ← accept "-" then
    return true
  else
    discard (accept "+")
    return false

/-- Takes decimal digits without leading zeros. -/
def wholeDigits (fuel : Nat) : Reader (List Char) := do
  if ← accept "0" then return ['0'] else digits Char.isDigit fuel

/-- Takes an integer. Other bases than ten have a marker and no sign. -/
def integer (fuel : Nat) : Reader Value := do
  if ← accept "0x" then
    checkInteger (digitsValue 16 (← digits isHexadecimal fuel))
  else if ← accept "0o" then
    checkInteger (digitsValue 8 (← digits isOctal fuel))
  else if ← accept "0b" then
    checkInteger (digitsValue 2 (← digits isBinary fuel))
  else
    let negative ← sign
    let magnitude := digitsValue 10 (← wholeDigits fuel)
    checkInteger (if negative then -magnitude else magnitude)

/-- Whether a magnitude, given as digits times a power of ten, is beyond every double: at least
halfway from the greatest one to the power of two above it. The number of digits decides most cases
before any power is computed. -/
def isBeyondDouble (digits : List Char) (exponent : Int) : Bool :=
  let significant := digits.dropWhile (· == '0')
  let magnitude := digitsValue 10 significant
  let bound := ((1 <<< 54) - 1) <<< 970
  let wholeDigits := significant.length + exponent
  if significant.isEmpty || wholeDigits ≤ 308 then false
  else if 310 ≤ wholeDigits then true
  else if 0 ≤ exponent then bound ≤ magnitude * Nat.pow 10 exponent.toNat
  else bound * Nat.pow 10 (-exponent).toNat ≤ magnitude

/-- Takes an exponent. -/
def exponent (fuel : Nat) : Reader Int := do
  discard (satisfy fun character => character == 'e' || character == 'E')
  let negative ← sign
  let magnitude := digitsValue 10 (← digits Char.isDigit fuel)
  return if negative then -magnitude else magnitude

/-- Takes a floating-point number: with a fraction, an exponent or both, or a special one. Digits
without a minus must not stand for more than a double can be. -/
def float (fuel : Nat) : Reader Value := do
  let negative ← sign
  if ← accept "inf" then
    return .float
  else if ← accept "nan" then
    return .float
  else
    let whole ← wholeDigits fuel
    let (fraction, exponent) ←
      if ← accept "." then
        let fraction ← digits Char.isDigit fuel
        let exponent ← optional (exponent fuel)
        pure (fraction, exponent.getD 0)
      else
        pure ([], ← exponent fuel)
    if !negative && isBeyondDouble (whole ++ fraction) (exponent - fraction.length) then
      failure
    return .float

/-- Takes a number of two digits within bounds. -/
def twoDigits (least greatest : Nat) : Reader Nat := do
  let number := digitsValue 10 (← takeExactly 2 Char.isDigit)
  if least ≤ number && number ≤ greatest then return number else failure

/-- The number of days of a month. -/
def daysOfMonth (year month : Nat) : Nat :=
  if month = 2 then
    if year % 4 = 0 && (year % 100 ≠ 0 || year % 400 = 0) then 29 else 28
  else if month = 4 || month = 6 || month = 9 || month = 11 then 30
  else 31

/-- Takes a date. -/
def calendarDate : Reader Unit := do
  let year := digitsValue 10 (← takeExactly 4 Char.isDigit)
  expect '-'
  let month ← twoDigits 1 12
  expect '-'
  discard (twoDigits 1 (daysOfMonth year month))

/-- Takes a time of day. -/
def timeOfDay : Reader Unit := do
  discard (twoDigits 0 23)
  expect ':'
  discard (twoDigits 0 59)
  expect ':'
  discard (twoDigits 0 60)
  if ← accept "." then
    match ← takeWhile Char.isDigit with
    | [] => failure
    | _ => return ()

/-- Takes the distance from universal time. -/
def offset : Reader Unit := do
  match ← next with
  | 'Z' | 'z' => return ()
  | '+' | '-' =>
    discard (twoDigits 0 23)
    expect ':'
    discard (twoDigits 0 59)
  | _ => failure

/-- Takes the time that may follow a date. -/
def timeAfterDate : Reader Unit := do
  discard (satisfy fun character => character == 'T' || character == 't' || character == ' ')
  timeOfDay
  discard (optional offset)

/-- Takes a date, a time or both. -/
def date : Reader Value := do
  match ← optional calendarDate with
  | some () => discard (optional timeAfterDate)
  | none => timeOfDay
  return .date

/-- Takes a truth value. -/
def boolean : Reader Value := do
  if ← accept "true" then return .boolean true
  else if ← accept "false" then return .boolean false
  else failure

/-- Takes a value without parts. -/
def scalar (fuel : Nat) : Reader Value := do
  match ← peek? with
  | some '"' | some '\'' => return .string (← anyString fuel)
  | some 't' => boolean
  | some 'f' => boolean
  | _ =>
    match ← optional date with
    | some value => return value
    | none =>
      match ← optional (float fuel) with
      | some value => return value
      | none => integer fuel

end Datapath.Toml.Reader
