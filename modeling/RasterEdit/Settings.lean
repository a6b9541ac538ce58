import RasterEdit.Field

/-!
# Settings

The values that govern every edit. They are read from named texts and from directly given values,
which win; directly given names that no setting has are refused.
-/

set_option autoImplicit false

namespace RasterEdit

structure Settings where
  logLevel : String
  logFormat : String
  bitonalThreshold : Nat
  maxOutputPixels : Nat
  requireOutputLimit : Bool
  reducingGap : Real64

namespace Settings

def names : List String :=
  ["LOG_LEVEL", "LOG_FORMAT", "BITONAL_THRESHOLD", "MAX_OUTPUT_PIXELS", "REQUIRE_OUTPUT_LIMIT",
    "HIGH_QUALITY_REDUCING_GAP"]

/-- Gray values from the threshold on are white, so it lies between 1 and 255. -/
def threshold : Field.Reader Int :=
  Field.restricted (Field.integerAtLeast 1) fun n => if 255 < n then some (.above 255) else none

/-- One fault for each directly given name that is no setting. -/
def unexpected (given : Fields) : Checked Unit :=
  match given.filter (!names.contains ·.1) with
  | [] => .valid ()
  | extra => .faulty (extra.map fun (name, _) => ⟨name, .unexpected⟩)

def ofFields (environment : List (String × String)) (given : Fields) : Result Settings :=
  let fields : Fields := environment.map (fun (name, value) => (name, .text value)) ++ given
  let natural (name : String) (default : Nat) (reader : Field.Reader Int) : Checked Nat :=
    Checked.map Int.toNat (Field.withDefault fields name (default : Int) reader)
  Checked.toResult "Settings"
    ((fun level format threshold pixels require gap _ =>
        (⟨level, format, threshold, pixels, require, gap⟩ : Settings))
      <$> Field.withDefault fields "LOG_LEVEL" "INFO" Field.text
      <*> Field.withDefault fields "LOG_FORMAT" "console" Field.text
      <*> natural "BITONAL_THRESHOLD" 128 threshold
      <*> natural "MAX_OUTPUT_PIXELS" 0 (Field.integerAtLeast 0)
      <*> Field.withDefault fields "REQUIRE_OUTPUT_LIMIT" false Field.truth
      <*> Field.withDefault fields "HIGH_QUALITY_REDUCING_GAP" (Binary.ofInt _ 2)
        (Field.realAtLeast 1)
      <*> unexpected given)

/-- The settings when nothing is given. -/
def default : Settings where
  logLevel := "INFO"
  logFormat := "console"
  bitonalThreshold := 128
  maxOutputPixels := 0
  requireOutputLimit := false
  reducingGap := Binary.ofInt _ 2

theorem ofFields_nil : ofFields [] [] = .ok default := rfl

/-- The output limit, which has to be set. -/
def outputLimit (s : Settings) : Result Nat :=
  if s.maxOutputPixels = 0 then .error (.unconfigured "Output pixel limit" "MAX_OUTPUT_PIXELS")
  else .ok s.maxOutputPixels

end Settings

end RasterEdit
