import RasterEdit.Datum
import RasterEdit.Raster.Layout

/-!
# Failures

Every way in which a request can fail, as a cause with its data. The wording of each cause is in
`Failure.message` and the functions it calls, and nowhere else.
-/

set_option autoImplicit false

namespace RasterEdit

def shownPair (p : Int × Int) : String := s!"({p.1}, {p.2})"

/-- A number that has no counterpart in the wanted kind. -/
inductive ConversionFault where
  | nanToInteger
  | infinityToInteger
  | integerTooLarge
  | quotientTooLarge
  | beyondLong
  | aboveShort
  | belowShort
deriving DecidableEq, Repr

def ConversionFault.message : ConversionFault → String
  | nanToInteger => "cannot convert float NaN to integer"
  | infinityToInteger => "cannot convert float infinity to integer"
  | integerTooLarge => "int too large to convert to float"
  | quotientTooLarge => "integer division result too large for a float"
  | beyondLong => "Python int too large to convert to C long"
  | aboveShort => "signed integer is greater than maximum"
  | belowShort => "signed integer is less than minimum"

inductive FieldFault where
  | missing
  | integerExpected
  | integerUnreadable
  | integerTooLong
  | integerFromFraction
  | finiteExpected
  | realExpected
  | realUnreadable
  | truthExpected
  | truthUnreadable
  | textExpected
  | unknownChoice (choices : List String)
  | below (bound : Nat)
  | notAbove (bound : Nat)
  | above (bound : Nat)
  | unexpected
  | inconsistent (message : String)

/-- `'a', 'b' or 'c'`. -/
def shownChoices (choices : List String) : String :=
  let shown := choices.map Text.quoted
  match shown.reverse with
  | [] => ""
  | [only] => only
  | last :: front => ", ".intercalate front.reverse ++ " or " ++ last

namespace FieldFault

def code : FieldFault → String
  | missing => "missing"
  | integerExpected => "int_type"
  | integerUnreadable => "int_parsing"
  | integerTooLong => "int_parsing_size"
  | integerFromFraction => "int_from_float"
  | finiteExpected => "finite_number"
  | realExpected => "float_type"
  | realUnreadable => "float_parsing"
  | truthExpected => "bool_type"
  | truthUnreadable => "bool_parsing"
  | textExpected => "string_type"
  | unknownChoice _ => "enum"
  | below _ => "greater_than_equal"
  | notAbove _ => "greater_than"
  | above _ => "less_than_equal"
  | unexpected => "extra_forbidden"
  | inconsistent _ => "value_error"

def message : FieldFault → String
  | missing => "Field required"
  | integerExpected => "Input should be a valid integer"
  | integerUnreadable => "Input should be a valid integer, unable to parse string as an integer"
  | integerTooLong => "Unable to parse input string as an integer, exceeded maximum size"
  | integerFromFraction =>
    "Input should be a valid integer, got a number with a fractional part"
  | finiteExpected => "Input should be a finite number"
  | realExpected => "Input should be a valid number"
  | realUnreadable => "Input should be a valid number, unable to parse string as a number"
  | truthExpected => "Input should be a valid boolean"
  | truthUnreadable => "Input should be a valid boolean, unable to interpret input"
  | textExpected => "Input should be a valid string"
  | unknownChoice choices => "Input should be " ++ shownChoices choices
  | below bound => s!"Input should be greater than or equal to {bound}"
  | notAbove bound => s!"Input should be greater than {bound}"
  | above bound => s!"Input should be less than or equal to {bound}"
  | unexpected => "Extra inputs are not permitted"
  | inconsistent message => "Value error, " ++ message

end FieldFault

/-- A fault and the field it was found in. -/
structure FieldError where
  location : String
  fault : FieldFault

def FieldError.message (e : FieldError) : String :=
  e.location ++ ": " ++ e.fault.code ++ ": " ++ e.fault.message

inductive LayoutFault where
  | customRank (rank : Nat)
  | customWithoutChannels
  | customKind (kindName : String)
  | kind (layout : Layout) (wanted : SampleKind) (kindName : String)
  | flatShape (layout : Layout) (shape : List Nat)
  | stackedShape (layout : Layout) (channels : Nat) (shape : List Nat)

/-- Sizes of the axes in parentheses; a single one keeps its comma. -/
def shownShape : List Nat → String
  | [n] => s!"({n},)"
  | shape => "(" ++ ", ".intercalate (shape.map toString) ++ ")"

def LayoutFault.message : LayoutFault → String
  | customRank rank => s!"CUSTOM raster must be 2-D or 3-D, got {rank}-D array"
  | customWithoutChannels => "CUSTOM raster must have at least one channel"
  | customKind kindName =>
    "CUSTOM raster must hold bool, integer or float samples, got dtype " ++ kindName
  | kind layout wanted kindName =>
    layout.name ++ " raster requires dtype " ++ wanted.shownName ++ ", got " ++ kindName
  | flatShape layout shape => layout.name ++ " raster must be 2-D, got shape " ++ shownShape shape
  | stackedShape layout channels shape =>
    layout.name ++ s!" raster must have shape (height, width, {channels}), got "
      ++ shownShape shape

/-- Why a request has no usable region or size. -/
inductive GeometryCause where
  | originOutside (x y width height : Int)
  | aspectOfEmpty (width height : Int)
  | emptySource
  | nonPositiveTarget (width height : Int)
  | described (message : String)

def GeometryCause.message : GeometryCause → String
  | originOutside x y width height =>
    s!"Crop origin ({x}, {y}) lies outside {width}x{height} raster"
  | aspectOfEmpty width height => s!"Cannot scale a {width}x{height} raster by aspect"
  | emptySource => "Cannot resample an empty raster"
  | nonPositiveTarget width height =>
    s!"Scale of {width}x{height} raster resolves to a non-positive size"
  | described message => message

inductive AllocationCause where
  | overLimit (pixels : Int)
  | outOfMemory
  | described (message : String)

def AllocationCause.message : AllocationCause → String
  | overLimit pixels => s!"Output of {pixels} pixels exceeds limit"
  | outOfMemory => "Out of memory allocating output raster"
  | described message => message

/-- The tables whose entries requests name. -/
inductive Vocabulary where
  | layouts | filters | flips | scaleModes
deriving DecidableEq, Repr

def Vocabulary.name : Vocabulary → String
  | layouts => "PixelLayout"
  | filters => "Filter"
  | flips => "Transpose"
  | scaleModes => "ScaleMode"

inductive MatrixFault where
  | singular
  | notSquare
  | tooFlat (rank : Nat)

def MatrixFault.message : MatrixFault → String
  | singular => "Singular matrix"
  | notSquare => "Last 2 dimensions of the array must be square"
  | tooFlat rank =>
    s!"{rank}-dimensional array given. Array must be at least two-dimensional"

/-- What can break off work inside the output guard. -/
inductive Interruption where
  | outOfMemory
  | badValue (text : String)
  | missingKey (text : String)

def Interruption.message : Interruption → String
  | outOfMemory => ""
  | badValue text => text
  | missingKey text => Text.quoted text

/-- Every way in which a request can fail. -/
inductive Failure where
  | raster (message : String) (operation : Option String)
  | geometry (cause : GeometryCause) (operation : Option String) (size : Option (Int × Int))
  | unsupportedLayout (layout : Layout) (operation : Option String)
  | allocation (cause : AllocationCause) (operation : Option String) (size : Option (Int × Int))
      (limit : Option Int)
  | unconfigured (keyName envName : String)
  | conversion (fault : ConversionFault)
  | invalid (model : String) (errors : List FieldError)
  | unknownName (vocabulary : Vocabulary) (given : Datum)
  | layoutMismatch (fault : LayoutFault)
  | notABuffer (given : Datum)
  | customBlank
  | negativeSize (width height : Int)
  | channelOutOfBounds (index axis size : Nat)
  | tooManyIndices
  | noImageMode (layout : Layout)
  | imagesDiffer
  | unsupportedConversion (source target : String)
  | scaleNotPositive (given : Datum)
  | negativeMaximum (given : Datum)
  | missingTarget (mode field : String)
  | tooFewItems (count : Nat)
  | tooManyItems
  | tupleTooShort
  | paletteTooLong
  | outsidePalette
  | alphasWithoutPalette
  | undefinedAngle
  | matrix (fault : MatrixFault)
  | notKept (name : String)
  | unknownLevel (name : String)
  | levelNotNumeric (text : String)
  | reservedExtra (name : String)
  | interrupted (cause : Interruption)

namespace Failure

/-- A message with its context in parentheses, if there is any. -/
def withContext (message : String) (context : List String) : String :=
  if context = [] then message else message ++ " (" ++ ", ".intercalate context ++ ")"

/-- The operation as context; an empty name counts as none. -/
def operationContext : Option String → List String
  | none => []
  | some operation => if operation = "" then [] else ["operation=" ++ operation]

def sizeContext : Option (Int × Int) → List String
  | none => []
  | some size => ["size=" ++ shownPair size]

def limitContext : Option Int → List String
  | none => []
  | some limit => [s!"limit={limit}"]

def withOperation (message : String) : Option String → String
  | none => message
  | some operation =>
    if operation = "" then message else message ++ " (operation: " ++ operation ++ ")"

def layoutMessage (layout : Layout) : String :=
  let refused := "Unsupported pixel layout " ++ layout.name
  if layout = .custom then refused ++ "; normalize it with convert_custom_to_rgb() first"
  else refused

def message : Failure → String
  | raster message operation => withOperation message operation
  | geometry cause operation size =>
    withContext cause.message (operationContext operation ++ sizeContext size)
  | unsupportedLayout layout operation => withOperation (layoutMessage layout) operation
  | allocation cause operation size limit =>
    withContext cause.message
      (operationContext operation ++ sizeContext size ++ limitContext limit)
  | unconfigured keyName envName =>
    keyName ++ " not configured. Set it in .env file or " ++ envName ++ " environment variable."
  | conversion fault => fault.message
  | invalid model errors => model ++ ": " ++ "; ".intercalate (errors.map FieldError.message)
  | unknownName vocabulary given => given.shown ++ " is not a valid " ++ vocabulary.name
  | layoutMismatch fault => fault.message
  | notABuffer given => "Raster data must be a numpy array, got " ++ given.typeName
  | customBlank => "Cannot create a blank CUSTOM raster"
  | negativeSize width height => s!"Dimensions must be non-negative, got {width}x{height}"
  | channelOutOfBounds index axis size =>
    s!"index {index} is out of bounds for axis {axis} with size {size}"
  | tooManyIndices =>
    "too many indices for array: array is 0-dimensional, but 1 were indexed"
  | noImageMode layout => "<PixelLayout." ++ layout.name ++ ": '" ++ layout.value ++ "'>"
  | imagesDiffer => "images do not match"
  | unsupportedConversion source target =>
    "conversion from " ++ source ++ " to " ++ target ++ " not supported"
  | scaleNotPositive given => "scale must be positive, got " ++ given.plain
  | negativeMaximum given => "max_factor must be non-negative, got " ++ given.plain
  | missingTarget mode field => mode ++ " scale requires " ++ field
  | tooFewItems count => s!"not enough values to unpack (expected 2, got {count})"
  | tooManyItems => "too many values to unpack (expected 2)"
  | tupleTooShort => "tuple index out of range"
  | paletteTooLong => "invalid palette size"
  | outsidePalette => "index outside palette"
  | alphasWithoutPalette => "'bytes' object cannot be interpreted as an integer"
  | undefinedAngle => "math domain error"
  | matrix fault => fault.message
  | notKept name => Text.quoted name
  | unknownLevel name => "module 'logging' has no attribute " ++ Text.quoted name
  | levelNotNumeric text => "Unknown level: " ++ Text.quoted text
  | reservedExtra name =>
    Text.quoted ("Attempt to overwrite " ++ Text.quoted name ++ " in LogRecord")
  | interrupted cause => cause.message

def interruption? : Failure → Option Interruption
  | allocation .outOfMemory .. => some .outOfMemory
  | _ => none

/-- Whether the failure is one of the raster operations' own. -/
def isRasterError : Failure → Bool
  | raster .. | geometry .. | unsupportedLayout .. | allocation .. => true
  | _ => false

/-- What a raster operation's failure says before its context. -/
def cause? : Failure → Option String
  | raster message _ => some message
  | geometry cause _ _ => some cause.message
  | unsupportedLayout layout _ => some (layoutMessage layout)
  | allocation cause _ _ _ => some cause.message
  | _ => none

def operation? : Failure → Option String
  | raster _ operation | geometry _ operation _ | unsupportedLayout _ operation
  | allocation _ operation _ _ => operation
  | _ => none

end Failure

abbrev Result (α : Type) : Type := Except Failure α

end RasterEdit
