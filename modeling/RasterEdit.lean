import RasterEdit.Image.Decoded
import RasterEdit.Journal.Console
import RasterEdit.Proofs.Session.ChannelOrder
import RasterEdit.Proofs.Session.HiddenColour
import RasterEdit.Proofs.Session.OutputLimit
import RasterEdit.Proofs.Session.Produced
import RasterEdit.Session
import RasterEdit.Proofs.Session.Forecast
import RasterEdit.Proofs.Edit.Recolouring
import RasterEdit.Proofs.Image.RoundTrip
import RasterEdit.Proofs.Binary.Overflow
import RasterEdit.Proofs.Geometry.Lengths
import RasterEdit.Proofs.Request.Accepted
import RasterEdit.Proofs.Request.Expressible
import RasterEdit.Proofs.Edit.Announced
import RasterEdit.Proofs.Session.AuditTrail
import RasterEdit.Proofs.Request.Reduced
import RasterEdit.Proofs.Journal.Correlation
import RasterEdit.Proofs.Edit.Clamped
import RasterEdit.Proofs.Request.AspectFit
import RasterEdit.Proofs.Request.FitInside
import RasterEdit.Proofs.Request.LostHalf
import RasterEdit.Proofs.Image.Colour
import RasterEdit.Proofs.Request.Reached
import RasterEdit.Proofs.Edit.Flattened
import RasterEdit.Proofs.Edit.GrayValues
import RasterEdit.Proofs.Edit.ToneRoutes
import RasterEdit.Proofs.Raster.Depth
import RasterEdit.Proofs.Edit.Normalized
import RasterEdit.Proofs.Image.WideSamples
import RasterEdit.Proofs.Edit.Nested
import RasterEdit.Proofs.Raster.Mirror
import RasterEdit.Proofs.Session.Flips
import RasterEdit.Proofs.Edit.MirroredCrops
import RasterEdit.Proofs.Geometry.Deepest
import RasterEdit.Proofs.Geometry.ExactRotation
import RasterEdit.Proofs.Geometry.ExactInverse
import RasterEdit.Proofs.Edit.WholeTurns
import RasterEdit.Proofs.Edit.SolidTurns
import RasterEdit.Proofs.Edit.TwoAngles
import RasterEdit.Proofs.Session.Relayouts
import RasterEdit.Proofs.Image.CanonicalArrays
import RasterEdit.Proofs.Edit.SplitCrops
import RasterEdit.Proofs.Binary.Within
import RasterEdit.Proofs.Image.Weights
import RasterEdit.Proofs.Image.Places
import RasterEdit.Proofs.Image.Steady
import RasterEdit.Proofs.Image.Window
import RasterEdit.Proofs.Image.Lanczos
import RasterEdit.Proofs.Image.Averages
import RasterEdit.Proofs.Image.SolidGrids
import RasterEdit.Proofs.Edit.SolidScales
import RasterEdit.Proofs.Geometry.NearestAway
import RasterEdit.Proofs.Request.Larger
