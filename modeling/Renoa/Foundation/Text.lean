import Mathlib.Data.List.DropRight
import Mathlib.Data.List.TakeWhile

/-!
# Lines and white space

Trimming, lines and prefixes of a string, by the white space of Unicode.
-/

namespace Renoa.Foundation.Text

/-- The characters Unicode calls white space. -/
def isWhitespace (c : Char) : Bool :=
  let n := c.toNat
  (0x9 ≤ n && n ≤ 0xD) || n == 0x20 || n == 0x85 || n == 0xA0 || n == 0x1680 ||
    (0x2000 ≤ n && n ≤ 0x200A) || n == 0x2028 || n == 0x2029 || n == 0x202F || n == 0x205F ||
    n == 0x3000

/-- The string without the white space at its ends. -/
def trim (s : String) : String :=
  String.ofList ((s.toList.dropWhile isWhitespace).rdropWhile isWhitespace)

/-- `p` starts the string. -/
def startsWith (p s : String) : Bool := p.toList.isPrefixOf s.toList

/-- A line without the carriage return before its line break. -/
def stripReturn (line : List Char) : List Char :=
  if line.getLast? = some '\r' then line.dropLast else line

/-- The lines of a text, of which `current` is read so far. Only a nonempty rest is a line. -/
def linesFrom (current : List Char) : List Char → List String
  | [] => if current.isEmpty then [] else [String.ofList current]
  | c :: rest =>
    if c = '\n' then String.ofList (stripReturn current) :: linesFrom [] rest
    else linesFrom (current ++ [c]) rest

def lines (s : String) : List String := linesFrom [] s.toList

end Renoa.Foundation.Text
