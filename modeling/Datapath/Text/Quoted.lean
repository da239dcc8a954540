import Datapath.Text.GraphemeExtend
import Datapath.Text.Unprintable

/-!
# Quoted text

Text that users gave is shown between double quotes, with escapes for what a reader could not tell
apart otherwise: the quote and the backslash, the usual control characters by letter, and by code
point every other character that cannot be seen or that would merge with its neighbour.
-/

namespace Datapath.Text

/-- The hexadecimal digits of a code point, lower case and without leading zeros. -/
def hexadecimal (codePoint : Nat) : String :=
  String.ofList (Nat.toDigits 16 codePoint)

/-- One character as it stands between the quotes. -/
def escape (character : Char) : String :=
  match character with
  | '\x00' => "\\0"
  | '\t' => "\\t"
  | '\r' => "\\r"
  | '\n' => "\\n"
  | '"' => "\\\""
  | '\\' => "\\\\"
  | _ =>
    if isGraphemeExtend character || isUnprintable character then
      "\\u\x7b" ++ hexadecimal character.toNat ++ "\x7d"
    else
      character.toString

/-- A text between double quotes. -/
def quoted (text : String) : String :=
  "\"" ++ String.join (text.toList.map escape) ++ "\""

end Datapath.Text
