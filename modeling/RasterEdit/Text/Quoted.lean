import RasterEdit.Text.Unprintable

/-!
# Quoted text

How a text is shown inside a message: in single quotes, or in double quotes if it holds single
quotes only; the quote, the backslash and every unprintable character are escaped.
-/

set_option autoImplicit false

namespace RasterEdit.Text

def singleQuote : Char := '\x27'

def doubleQuote : Char := '\x22'

def hexDigit (n : Nat) : Char := Nat.digitChar (n % 16)

/-- The last `count` hexadecimal digits of a number. -/
def hexDigits : (count : Nat) → Nat → List Char
  | 0, _ => []
  | count + 1, n => hexDigits count (n / 16) ++ [hexDigit n]

/-- A character as a backslash and its code point in two, four or eight hexadecimal digits. -/
def escapeCode (c : Char) : List Char :=
  let code := c.toNat
  if code < 256 then '\\' :: 'x' :: hexDigits 2 code
  else if code < 65536 then '\\' :: 'u' :: hexDigits 4 code
  else '\\' :: 'U' :: hexDigits 8 code

def escapeChar (quote c : Char) : List Char :=
  if c = quote ∨ c = '\\' then ['\\', c]
  else if c = '\n' then ['\\', 'n']
  else if c = '\r' then ['\\', 'r']
  else if c = '\t' then ['\\', 't']
  else if isUnprintable c then escapeCode c
  else [c]

def quoted (s : String) : String :=
  let cs := s.toList
  let quote := if singleQuote ∈ cs ∧ doubleQuote ∉ cs then doubleQuote else singleQuote
  String.ofList (quote :: cs.flatMap (escapeChar quote) ++ [quote])

/-- A text with every character beyond ASCII escaped. -/
def ascii (s : String) : String :=
  String.ofList (s.toList.flatMap fun c => if c.toNat < 128 then [c] else escapeCode c)

end RasterEdit.Text
