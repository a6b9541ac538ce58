import RasterEdit.Binary.Decimal

/-!
# Numbers written as text

The integers and the binary64 numbers that a text field may hold. Both drop blanks at the ends and
admit single underscores between other characters.
-/

set_option autoImplicit false

namespace RasterEdit.Text

/-- The blanks dropped at either end: the characters with the white-space property. -/
def isBlank (c : Char) : Bool :=
  let n := c.toNat
  (9 ≤ n && n ≤ 13) || n == 0x20 || n == 0x85 || n == 0xa0 || n == 0x1680
    || (0x2000 ≤ n && n ≤ 0x200a) || n == 0x2028 || n == 0x2029 || n == 0x202f || n == 0x205f
    || n == 0x3000

def trim (cs : List Char) : List Char :=
  ((cs.dropWhile isBlank).reverse.dropWhile isBlank).reverse

def isDigit (c : Char) : Bool := '0' ≤ c && c ≤ '9'

def digitsValue (cs : List Char) : Nat :=
  cs.foldl (fun n c => 10 * n + (c.toNat - '0'.toNat)) 0

/-- Drops underscores that stand between two other characters; `none` if one does not. -/
def joined? (cs : List Char) : Option (List Char) :=
  if cs.head? = some '_' ∨ cs.getLast? = some '_' ∨ (cs.zip (cs.drop 1)).contains ('_', '_') then
    none
  else some (cs.filter (· != '_'))

/-- Splits off a sign; the flag is set for a minus. -/
def splitSign : List Char → Bool × List Char
  | '-' :: rest => (true, rest)
  | '+' :: rest => (false, rest)
  | rest => (false, rest)

def digitLimit : Nat := 4300

/-- Whether a text starts as an integer of too many digits, whatever follows them. -/
def isOverlong (cs : List Char) : Bool :=
  let digits := ((if cs.head? = some '-' then cs.drop 1 else cs).takeWhile isDigit)
  digits.head? != some '0' && decide (digitLimit < digits.length)

/-- An integer in its plain form: an optional minus and digits without a leading zero. -/
def plainInteger? (cs : List Char) : Option Int :=
  let (negative, digits) : Bool × List Char :=
    match cs with
    | '-' :: rest => (true, rest)
    | rest => (false, rest)
  if digits = [] ∨ !digits.all isDigit ∨ (digits.head? = some '0' ∧ 1 < digits.length)
    ∨ digitLimit < digits.length
  then none
  else some (if negative then -(digitsValue digits : Int) else digitsValue digits)

/-- Drops a plus that is not followed by a minus. -/
def dropPlus? : List Char → Option (List Char)
  | '+' :: '-' :: _ => none
  | '+' :: rest => some rest
  | cs => some cs

/-- Drops zeros at the start and the underscores among them. A number or a minus has to follow;
before a point and at the end the last dropped character stays. -/
def dropLeadingZeros? (cs : List Char) : Option (List Char) :=
  let mayFollow (c : Char) : Bool := c == '-' || (isDigit c && c != '0')
  match cs with
  | '0' :: more =>
    let isDropped (c : Char) : Bool := c == '0' || c == '_'
    let last := (more.takeWhile isDropped).getLast?.getD '0'
    match more.dropWhile isDropped with
    | [] => some [last]
    | '.' :: rest => some (last :: '.' :: rest)
    | c :: rest => if mayFollow c then some (c :: rest) else none
  | c :: rest => if mayFollow c then some (c :: rest) else none
  | [] => none

/-- Drops a point with at least one zero and nothing else behind it. -/
def dropZeroFraction (cs : List Char) : List Char :=
  let fraction := (cs.dropWhile (· != '.')).drop 1
  if fraction ≠ [] ∧ fraction.all (· == '0') then cs.takeWhile (· != '.') else cs

/-- An integer as a text field admits it: in its plain form once blanks, a plus, leading zeros, a
zero fraction and single underscores are dropped, in this order. -/
def integer? (cs : List Char) : Option Int := do
  let unsigned ← dropPlus? (trim cs)
  let significant ← dropLeadingZeros? unsigned
  plainInteger? (← joined? (dropZeroFraction significant))

def exponent? : List Char → Option Int
  | [] => some 0
  | c :: rest =>
    if c = 'e' ∨ c = 'E' then
      let (negative, ds) := splitSign rest
      if ds ≠ [] ∧ ds.all isDigit then
        some (if negative then -(digitsValue ds : Int) else digitsValue ds)
      else none
    else none

/-- An unsigned decimal: digits with an optional point, at least one digit, optional exponent. -/
def decimal? (cs : List Char) : Option Decimal :=
  let whole := cs.takeWhile isDigit
  let afterWhole := cs.dropWhile isDigit
  let (fraction, rest) :=
    match afterWhole with
    | '.' :: tail => (tail.takeWhile isDigit, tail.dropWhile isDigit)
    | other => ([], other)
  if whole = [] ∧ fraction = [] then none
  else
    (exponent? rest).map fun e => ⟨digitsValue (whole ++ fraction), e - (fraction.length : Int)⟩

/-- A number without blanks or underscores, or a name of infinity or NaN in any case. -/
def plainReal? (cs : List Char) : Option Real64 :=
  let (negative, body) := splitSign cs
  let name := String.ofList (body.map Char.toLower)
  if name = "inf" ∨ name = "infinity" then some (Binary.infinity negative)
  else if name = "nan" then some Binary.nan
  else (decimal? body).map fun d => Binary.ofDecimal .binary64 negative d.digits d.exponent

/-- A number as a text field admits it. Underscores are admitted only where no blanks are. -/
def real? (s : String) : Option Real64 :=
  match plainReal? (trim s.toList) with
  | some x => some x
  | none => if '_' ∈ s.toList then (joined? s.toList).bind plainReal? else none

end RasterEdit.Text
