import TypeUses.Text.LowerCase
import TypeUses.Text.HiddenTable

/-!
# Text — quoted text

`quoted s` writes `s` between double quotes so that every character can be seen.  A quote, a
backslash and the controls NUL, tab, line feed and carriage return are written as a backslash and
one letter; any other character of `hiddenRanges` is written by its number, in the form of a
backslash, `u`, and the hexadecimal number in braces; all else stands for itself.
-/

namespace TypeUses.Text

/-- Whether a quoted text shows a character by its number. -/
def isHidden (c : Char) : Bool :=
  inRanges hiddenRanges c.toNat

/-- The number of a character, as it stands in a quoted text. -/
def numbered (c : Char) : String :=
  "\\u\x7b" ++ String.ofList (Nat.toDigits 16 c.toNat) ++ "\x7d"

/-- One character of a quoted text. -/
def escaped (c : Char) : String :=
  match c with
  | '"' => "\\\""
  | '\\' => "\\\\"
  | '\n' => "\\n"
  | '\t' => "\\t"
  | '\r' => "\\r"
  | '\x00' => "\\0"
  | c => if isHidden c then numbered c else String.singleton c

/-- A text between quotes, every character visible. -/
def quoted (s : String) : String :=
  "\"" ++ String.join (s.toList.map escaped) ++ "\""

end TypeUses.Text
