import PathSelection.Text.Basic
import PathSelection.Text.Printable

namespace PathSelection.Text

def hexDigit (n : Nat) : Char := Nat.digitChar (n % 16)

def hexDigits : (width : Nat) → Nat → Text
  | 0, _ => []
  | w + 1, n => hexDigits w (n / 16) ++ [hexDigit n]

/-- The mark around a quoted text: double where the text holds a single mark and no double one. -/
def quoteMark (t : Text) : Char := if '\'' ∈ t ∧ '"' ∉ t then '"' else '\''

/-- A character inside quotes: the mark and the backslash are escaped, line ends and tabs have
short codes, other invisible characters the shortest code of two, four or eight digits. -/
def quoteChar (mark c : Char) : Text :=
  if c = mark ∨ c = '\\' then ['\\', c]
  else if c = '\n' then ['\\', 'n']
  else if c = '\r' then ['\\', 'r']
  else if c = '\t' then ['\\', 't']
  else if isPrintable c then [c]
  else if c.toNat < 0x100 then '\\' :: 'x' :: hexDigits 2 c.toNat
  else if c.toNat < 0x10000 then '\\' :: 'u' :: hexDigits 4 c.toNat
  else '\\' :: 'U' :: hexDigits 8 c.toNat

def quoted (t : Text) : Text :=
  let mark := quoteMark t
  mark :: t.flatMap (quoteChar mark) ++ [mark]

end PathSelection.Text
