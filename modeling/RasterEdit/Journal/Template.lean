import RasterEdit.Journal.Place

/-!
# Message templates

A template is a row of pieces: characters, and places for arguments. A place is a percent sign, a
name in parentheses, flags, a width, a precision and the letter of a conversion, of which only the
first and the last have to be there. A doubled percent sign is the character itself. Filling a
template succeeds if the arguments fit its places.
-/

set_option autoImplicit false

namespace RasterEdit.Journal

/-- A width or precision: not given, written in the template, or an argument of its own. -/
inductive Measure where
  | absent
  | given (n : Nat)
  | argument
deriving DecidableEq, Repr

inductive Piece where
  | character (c : Char)
  | place (name : Option String) (flags : List Char) (width precision : Measure) (letter : Char)
deriving DecidableEq, Repr

namespace Template

/-- Reads a name up to the parenthesis that closes it; inner parentheses belong to the name. -/
def readName : (depth : Nat) → List Char → Option (List Char × List Char)
  | _, [] => none
  | depth, c :: rest =>
    if c = ')' ∧ depth = 0 then some ([], rest)
    else
      let deeper := if c = '(' then depth + 1 else if c = ')' then depth - 1 else depth
      (readName deeper rest).map fun (name, after) => (c :: name, after)

def isFlag (c : Char) : Bool := c == '-' || c == '+' || c == ' ' || c == '#' || c == '0'

def readMeasure : List Char → Measure × List Char
  | '*' :: rest => (.argument, rest)
  | cs =>
    match cs.takeWhile Char.isDigit with
    | [] => (.absent, cs)
    | digits =>
      (.given (digits.foldl (fun n c => 10 * n + (c.toNat - '0'.toNat)) 0),
        cs.dropWhile Char.isDigit)

/-- A precision follows a point; a point alone is precision zero. -/
def readPrecision : List Char → Measure × List Char
  | '.' :: rest =>
    match readMeasure rest with
    | (.absent, after) => (.given 0, after)
    | read => read
  | cs => (.absent, cs)

/-- Drops a letter for the size of an argument, which has no meaning here. -/
def dropSize : List Char → List Char
  | 'h' :: rest | 'l' :: rest | 'L' :: rest => rest
  | cs => cs

def readPlace (cs : List Char) : Option (Piece × List Char) := do
  let (name, cs) : Option String × List Char ←
    match cs with
    | '(' :: rest => (readName 0 rest).map fun (name, after) => (some (String.ofList name), after)
    | _ => some (none, cs)
  let flags := cs.takeWhile isFlag
  let (width, cs) := readMeasure (cs.dropWhile isFlag)
  let (precision, cs) := readPrecision cs
  match dropSize cs with
  | [] => none
  | letter :: rest => some (.place name flags width precision letter, rest)

/-- Reads pieces. Every piece takes at least one character, so a template's length is fuel
enough. -/
def read : (fuel : Nat) → List Char → Option (List Piece)
  | _, [] => some []
  | 0, _ :: _ => none
  | fuel + 1, '%' :: '%' :: rest => (.character '%' :: ·) <$> read fuel rest
  | fuel + 1, '%' :: rest => do
    let (piece, rest) ← readPlace rest
    return piece :: (← read fuel rest)
  | fuel + 1, c :: rest => (.character c :: ·) <$> read fuel rest

def ofString? (template : String) : Option (List Piece) :=
  read template.length template.toList

end Template

/-- Where places get their arguments: one after the other from a list, or by name from a table. The
value last named, and at first the table itself, is there once for a place without a name. -/
inductive Arguments where
  | list (rest : List Datum)
  | table (fields : Fields) (value : Option Datum)

namespace Arguments

/-- A single record that is not empty is a table. -/
def ofList : List Datum → Arguments
  | [.record (first :: rest)] => .table (first :: rest) (some (.record (first :: rest)))
  | arguments => .list arguments

def next? : Arguments → Option (Datum × Arguments)
  | list (first :: rest) => some (first, list rest)
  | list [] => none
  | table fields (some value) => some (value, table fields none)
  | table _ none => none

def named? (name : String) : Arguments → Option Arguments
  | list _ => none
  | table fields _ => (fields.get? name).map fun value => table fields (some value)

/-- Whether nothing is left over. A table need not be used up. -/
def isSpent : Arguments → Bool
  | list rest => rest.isEmpty
  | table .. => true

/-- A width or precision, `none` within if there is none; `least` and `past` bound arguments. -/
def measure? (least past : Int) : Measure → Arguments → Option (Option Int × Arguments)
  | .absent, arguments => some (none, arguments)
  | .given n, arguments => if n < past then some (some (n : Int), arguments) else none
  | .argument, arguments => do
    let (d, arguments) ← arguments.next?
    let n ← Place.integer? d
    if least ≤ n ∧ n < past then some (some n, arguments) else none

end Arguments

namespace Piece

def fill (arguments : Arguments) : Piece → Option (String × Arguments)
  | character c => some (c.toString, arguments)
  | place name flags width precision letter => do
    let arguments ← match name with
      | none => some arguments
      | some name => arguments.named? name
    let wordBound : Int := (1 <<< 63 : Nat)
    let shortBound : Int := (1 <<< 31 : Nat)
    let (width, arguments) ← arguments.measure? (-wordBound) wordBound width
    let (precision, arguments) ← arguments.measure? (-shortBound) shortBound precision
    let (d, arguments) ← arguments.next?
    let conversion ← Place.Conversion.ofLetter? letter
    let wanted := width.getD 0
    let shown ← Place.render ⟨flags.contains '-' || decide (wanted < 0), flags.contains '0',
      flags.contains '+', flags.contains ' ', flags.contains '#', wanted.natAbs,
      precision.map Int.toNat⟩ conversion d
    return (shown, arguments)

/-- Fills pieces from the left; the arguments have to be used up. -/
def fillAll (arguments : Arguments) : List Piece → Option String
  | [] => if arguments.isSpent then some "" else none
  | piece :: rest => do
    let (shown, arguments) ← piece.fill arguments
    return shown ++ (← fillAll arguments rest)

end Piece

/-- Fills a template; `none` if its places and the arguments do not fit. -/
def filled? (template : String) (arguments : Arguments) : Option String :=
  (Template.ofString? template).bind (Piece.fillAll arguments)

/-- A message; without arguments the template is not read at all. -/
def message? (template : String) (arguments : List Datum) : Option String :=
  if arguments.isEmpty then some template else filled? template (.ofList arguments)

end RasterEdit.Journal
