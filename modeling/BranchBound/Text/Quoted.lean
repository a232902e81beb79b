/-
Quoted text: a string between double quotes, in which quotes and backslashes are escaped and also
every character that could not be seen by itself, so that the string can be told from its
surroundings on one line.
-/
import BranchBound.Text.Extending
import BranchBound.Text.Invisible

namespace BranchBound.Text

def escape (c : Char) : String :=
  match c with
  | '"' => "\\\""
  | '\\' => "\\\\"
  | '\n' => "\\n"
  | '\t' => "\\t"
  | '\r' => "\\r"
  | '\x00' => "\\0"
  | c =>
    if invisible.contains c || extending.contains c then
      "\\u\x7b" ++ String.ofList (Nat.toDigits 16 c.toNat) ++ "\x7d"
    else c.toString

/-- A string between double quotes. -/
def quoted (s : String) : String := "\"" ++ String.join (s.toList.map escape) ++ "\""

end BranchBound.Text
