import RasterEdit.Binary.Decimal
import RasterEdit.Text.Quoted

/-!
# Dynamic values

The values that a request carries before its fields are checked, and the values of a log event.
Integers have any size and differ from numbers with a fraction part, even a zero one.
-/

set_option autoImplicit false

namespace RasterEdit

inductive Datum where
  | null
  | truth (b : Bool)
  | whole (n : Int)
  | real (x : Real64)
  | text (s : String)
  | items (values : List Datum)
  | record (fields : List (String × Datum))
deriving Inhabited

/-- Named values in the order they were given. -/
abbrev Fields : Type := List (String × Datum)

/-- The value under a name; of several the last counts. -/
def Fields.get? (fields : Fields) (name : String) : Option Datum :=
  (fields.reverse.find? (·.1 == name)).map (·.2)

namespace Datum

mutual

/-- The value as it is shown inside a message. -/
def shown : Datum → String
  | null => "None"
  | truth b => if b then "True" else "False"
  | whole n => toString n
  | real x => x.text
  | text s => Text.quoted s
  | items values => "[" ++ ", ".intercalate (shownItems values) ++ "]"
  | record fields => "\x7b" ++ ", ".intercalate (shownFields fields) ++ "\x7d"

def shownItems : List Datum → List String
  | [] => []
  | value :: rest => shown value :: shownItems rest

def shownFields : List (String × Datum) → List String
  | [] => []
  | (name, value) :: rest => (Text.quoted name ++ ": " ++ shown value) :: shownFields rest

end

/-- The value as plain text: a text is itself, anything else as it is shown. -/
def plain : Datum → String
  | text s => s
  | other => other.shown

def typeName : Datum → String
  | null => "NoneType"
  | truth _ => "bool"
  | whole _ => "int"
  | real _ => "float"
  | text _ => "str"
  | items _ => "list"
  | record _ => "dict"

end Datum

end RasterEdit
