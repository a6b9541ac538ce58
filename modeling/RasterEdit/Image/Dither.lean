import RasterEdit.Image.Colour

/-!
# Black and white by error diffusion

Each pixel becomes black or white; its error is passed on to the right and to the row below in
sixteenths. A row is one pass over its inputs and the errors left by the row above.
-/

set_option autoImplicit false

namespace RasterEdit.Dither

/-- Errors carried along a row: the running value and the shares of the two last pixels that fall
to the row below. -/
structure Carry where
  along : Int
  below : Int
  belowNext : Int

/-- Decides the pixels of a row; gives the errors for the row below. `above` starts with the error
to the right of the pixel. -/
def row : (inputs above : List Int) → Carry → List Bool × List Int
  | [], _, carry => ([], [carry.below])
  | input :: inputs, above, carry =>
    let wanted : Int := Colour.clamp (input + (carry.along + above.headD 0).tdiv 16) |>.toNat
    let white : Bool := decide (128 < wanted)
    let error := if white then wanted - 255 else wanted
    let third := error + 2 * error
    let fifth := third + 2 * error
    let next : Carry := ⟨fifth + 2 * error, fifth + carry.belowNext, error⟩
    let (rest, errors) := row inputs (above.drop 1) next
    (white :: rest, (third + carry.below) :: errors)

/-- Decides all rows from the top. -/
def rows : (inputs : List (List Int)) → (above : List Int) → List (List Bool)
  | [], _ => []
  | inputs :: rest, above =>
    let (decided, errors) := row inputs (above.drop 1) ⟨0, 0, 0⟩
    decided :: rows rest errors

def grid {α : Type} (brightness : α → Int) (g : Grid α) : Grid Bool :=
  let inputs := (List.range g.height).map fun r =>
    (List.range g.width).map fun c =>
      match g.cells[r * g.width + c]? with
      | some pixel => brightness pixel
      | none => 0
  let decided := ((rows inputs (List.replicate (g.width + 1) 0)).map List.toArray).toArray
  Grid.ofFn g.width g.height fun r c _ _ => (decided.getD r #[]).getD c false

/-- Brightness of a colour in thousandths, cut down. -/
def brightness (p : Rgb) : Int :=
  (299 * (Colour.red p).toNat + 587 * (Colour.green p).toNat + 114 * (Colour.blue p).toNat)
    / 1000

end RasterEdit.Dither
