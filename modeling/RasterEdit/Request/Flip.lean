/-!
# Flip requests

A horizontal flip reverses every row, a vertical one the order of the rows.
-/

set_option autoImplicit false

namespace RasterEdit

inductive Flip where
  | horizontal | vertical
deriving DecidableEq, Repr

namespace Flip

def all : List Flip := [horizontal, vertical]

def value : Flip → String
  | horizontal => "horizontal"
  | vertical => "vertical"

def name : Flip → String
  | horizontal => "HORIZONTAL"
  | vertical => "VERTICAL"

def ofValue? (s : String) : Option Flip := all.find? (·.value == s)

end Flip

end RasterEdit
