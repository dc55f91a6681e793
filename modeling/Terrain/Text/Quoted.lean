import Terrain.Text.Printable

/-!
# Quoted text

A text in an error message stands between quotes.  The quote itself and the backslash are written
after a backslash, the usual controls by a letter, other characters that cannot be printed by
their code.
-/

namespace Terrain.Text

def hexDigit (n : Nat) : Char :=
  if n < 10 then Char.ofNat (48 + n) else Char.ofNat (87 + n)

/-- `n` in `width` lower-case hexadecimal digits -/
def hexPadded : Nat → Nat → List Char
  | 0, _ => []
  | width + 1, n => hexPadded width (n / 16) ++ [hexDigit (n % 16)]

/-- one character as it stands between two `quote` characters -/
def escape (quote c : Char) : List Char :=
  if c = quote ∨ c = '\\' then ['\\', c]
  else if isPrintable c then [c]
  else match c.toNat with
    | 7 => ['\\', 'a']
    | 8 => ['\\', 'b']
    | 12 => ['\\', 'f']
    | 10 => ['\\', 'n']
    | 13 => ['\\', 'r']
    | 9 => ['\\', 't']
    | 11 => ['\\', 'v']
    | n =>
      if n < 0x80 then '\\' :: 'x' :: hexPadded 2 n
      else if n < 0x10000 then '\\' :: 'u' :: hexPadded 4 n
      else '\\' :: 'U' :: hexPadded 8 n

def quoted (s : String) : String :=
  String.ofList ('"' :: s.toList.flatMap (escape '"') ++ ['"'])

def quotedChar (c : Char) : String :=
  String.ofList ('\'' :: escape '\'' c ++ ['\''])

end Terrain.Text
