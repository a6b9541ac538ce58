import RasterEdit.Proofs.Raster.Samples
import RasterEdit.Proofs.Request.Expressible
import RasterEdit.Proofs.Request.Reduced

/-!
# Clamped crops

The region that a crop request means is its rounded rectangle, cut off at the far edges of the
raster, and a request is refused exactly if its origin lies beyond one of them. A crop is settled by
that region: it keeps the raster if the region is all of it, and otherwise copies every channel of
every pixel of the region.
-/

set_option autoImplicit false

namespace RasterEdit

open Binary Result

/-- The region of all pixels. -/
def Size.whole (bounds : Size) : Region := ⟨0, 0, bounds.width, bounds.height⟩

/-- What the far edges leave of a rectangle. -/
def Size.clamp (bounds : Size) (x y width height : Nat) : Region :=
  ⟨x, y, min width (bounds.width - x), min height (bounds.height - y)⟩

theorem Region.covers_iff {region : Region} {bounds : Size} :
    region.covers bounds = true ↔ region = bounds.whole := by
  obtain ⟨x, y, width, height⟩ := region
  simp [covers, Size.whole, and_assoc]

/-! ## Regions of requests -/

namespace CropRequest

theorem clipped_natCast (side start extent : Nat) :
    clipped side start extent = if side < start then (side : Int) - start
      else (min extent (side - start) : Nat) := by
  unfold clipped
  split <;> split <;> omega

theorem region_clamped {r : CropRequest} (bounded : r.full = false) {size : Size}
    {reduction : Reduction} {x y width height : Nat}
    (resolved : r.coordinates size.toPair reduction = .ok (x, y, width, height)) :
    (OutOfShape (r.region size.toPair reduction) ↔ size.width < x ∨ size.height < y) ∧
      (x ≤ size.width → y ≤ size.height →
        r.region size.toPair reduction = .ok (size.clamp x y width height)) := by
  have across := clipped_natCast size.width x width
  have down := clipped_natCast size.height y height
  have region := region_of_coordinates bounded resolved across down
  by_cases outside : size.width < x ∨ size.height < y
  · have negative : (if size.width < x then (size.width : Int) - x
          else (min width (size.width - x) : Nat)) < 0 ∨
        (if size.height < y then (size.height : Int) - y
          else (min height (size.height - y) : Nat)) < 0 := by
      split <;> split <;> omega
    rw [if_pos negative] at region
    exact ⟨iff_of_true ⟨_, _, _, region⟩ outside, fun left top => by omega⟩
  · obtain ⟨left, top⟩ := not_or.mp outside
    have nonneg : ¬ (((min width (size.width - x) : Nat) : Int) < 0 ∨
        ((min height (size.height - y) : Nat) : Int) < 0) := by omega
    rw [if_neg left, if_neg top, if_neg nonneg] at region
    refine ⟨iff_of_false ?_ outside, fun _ _ => region⟩
    rintro ⟨cause, operation, given, refused⟩
    rw [region] at refused
    cases refused

theorem region_of_full {r : CropRequest} (full : r.full = true) (size : Size)
    (reduction : Reduction) : r.region size.toPair reduction = .ok size.whole := by
  simp only [region, full, ↓reduceIte]
  exact Region.ofInts_of_nonneg (le_refl 0) (le_refl 0) (Int.natCast_nonneg _)
    (Int.natCast_nonneg _)

end CropRequest

/-! ## Fractions that cover everything -/

namespace Real64

theorem isZero_of_equal {x : Real64} (equal : Binary.equal x 0 = true) : x.isZero = true := by
  cases x with
  | nan => cases equal
  | signed s rank h =>
    have none : (0 : Real64) = .signed false 0 (Nat.zero_le _) := rfl
    rw [none] at equal
    rw [isZero_signed]
    cases s <;> simpa [Binary.equal, compare?, key, compare_eq_iff_eq] using equal

theorem eq_one_of_equal {x : Real64} (equal : Binary.equal x 1 = true) : x = 1 := by
  cases x with
  | nan => cases equal
  | signed s rank h =>
    change Binary.equal _ (Binary.ofInt .binary64 1) = true at equal
    change _ = Binary.ofInt .binary64 1
    rw [one_eq] at equal ⊢
    have same : key s rank = key false (1023 * 2 ^ 52) := by
      simpa [Binary.equal, compare?, compare_eq_iff_eq] using equal
    cases s with
    | false =>
      obtain rfl : rank = 1023 * 2 ^ 52 := Int.ofNat.inj same
      rfl
    | true =>
      simp only [key, ↓reduceIte, Bool.false_eq_true] at same
      omega

theorem roundHalfAway_zero_mul {x : Real64} {n : Nat} (zero : Binary.equal x 0 = true)
    (small : n < 2 ^ 50) : roundHalfAway (x * Real64.ofInt n) = .ok ((0 : Nat) : Int) := by
  have finite : (Real64.ofInt n).isFinite = true := isFinite_of_small (by omega)
  have vanishes := isZero_mul (isZero_of_equal zero) finite
  have rounded := roundHalfAway_whole (k := 0) (isFinite_of_isZero vanishes)
    (magnitude_of_isZero vanishes) (by decide)
  simpa using rounded

theorem roundHalfAway_one_mul {x : Real64} {n : Nat} (one : Binary.equal x 1 = true)
    (small : n < 2 ^ 50) : roundHalfAway (x * Real64.ofInt n) = .ok (n : Int) := by
  have finite : (Real64.ofInt n).isFinite = true := isFinite_of_small (by omega)
  have product : (1 : Real64) * Real64.ofInt n = Real64.ofInt n :=
    (Binary.mul_comm ..).trans (mul_one_of_isFinite finite)
  rw [eq_one_of_equal one, product,
    roundHalfAway_whole finite (magnitude_ofNat (by omega)) (by omega), isNegative_ofNat]
  rfl

end Real64

namespace CropRequest

theorem region_of_coversAll {r : CropRequest} (covers : r.coversAll = true) {size : Size}
    (narrow : size.width < 2 ^ 50) (low : size.height < 2 ^ 50) (reduction : Reduction) :
    r.region size.toPair reduction = .ok size.whole := by
  cases full : r.full with
  | true => exact region_of_full full size reduction
  | false =>
    simp only [coversAll, full, Bool.false_or, Bool.and_eq_true, beq_iff_eq] at covers
    obtain ⟨⟨⟨⟨percent, left⟩, top⟩, across⟩, down⟩ := covers
    have expressed {n : Nat} (small : n < 2 ^ 50) : realOfInt n = .ok (Real64.ofInt n) :=
      realOfInt_eq_ok.mpr ⟨Real64.isFinite_of_small (by omega), rfl⟩
    have coordinates : r.coordinates size.toPair reduction =
        .ok (((0 : Nat) : Int), ((0 : Nat) : Int), size.width, size.height) := by
      simp only [CropRequest.coordinates, percent, Size.toPair, expressed narrow, expressed low,
        ok_bind, Real64.roundHalfAway_zero_mul left narrow, Real64.roundHalfAway_zero_mul top low,
        Real64.roundHalfAway_one_mul across narrow, Real64.roundHalfAway_one_mul down low]
      rfl
    have clamped : size.clamp 0 0 size.width size.height = size.whole := by
      simp [Size.clamp, Size.whole]
    rw [(region_clamped full coordinates).2 (Nat.zero_le _) (Nat.zero_le _), clamped]

end CropRequest

/-! ## Crops -/

/-- What a crop does with the region that its request means: it fails with it, keeps the very raster
if the region is all of it, is withheld by the output budget, or copies every sample. -/
inductive Raster.Cropped (settings : Settings) (r : Raster) :
    Result Region → Result Outcome → Prop where
  | unresolved (fault : Failure) : Cropped settings r (.error fault) (.error fault)
  | kept (note : Option Journal.Entry) :
      Cropped settings r (.ok r.size.whole) (.ok (.unchanged note))
  | withheld {region : Region} {fault : Failure} (proper : region ≠ r.size.whole)
      (denied : Budget.check settings "crop" region.size.toPair = .error fault) :
      Cropped settings r (.ok region) (.error fault)
  | copied {region : Region} {after : Raster} {entry : Journal.Entry}
      (proper : region ≠ r.size.whole)
      (admitted : Budget.check settings "crop" region.size.toPair = .ok ())
      (layout_eq : after.layout = r.layout) (kind_eq : after.kind = r.kind)
      (channels_eq : after.channels = r.channels) (size_eq : after.size = region.size)
      (samples : ∀ {row col channel : Nat}, row < region.height → col < region.width →
        channel < r.channels →
        after.sampleAt row col channel = r.sampleAt (region.y + row) (region.x + col) channel) :
      Cropped settings r (.ok region) (.ok (.produced after entry))

theorem Raster.crop_cropped (settings : Settings) {request : CropRequest} {reduction : Reduction}
    {r : Raster} (whole : request.coversAll = true →
      request.region r.size.toPair reduction = .ok r.size.whole) :
    r.Cropped settings (request.region r.size.toPair reduction)
      (r.crop settings request reduction) := by
  cases covers : request.coversAll with
  | true =>
    rw [whole covers, Raster.crop, if_pos covers]
    exact .kept _
  | false =>
    have asked : ¬ request.coversAll = true := by
      rw [covers]
      exact Bool.false_ne_true
    rw [Raster.crop, if_neg asked]
    cases resolved : request.region r.size.toPair reduction with
    | error fault => exact .unresolved fault
    | ok region =>
      have within := CropRequest.region_isWithin resolved
      rw [ok_bind]
      by_cases all : region.covers r.size = true
      · rw [if_pos all, Region.covers_iff.mp all]
        exact .kept _
      · have proper := mt Region.covers_iff.mpr all
        have size_eq := Raster.size_rearrange_crop within
        rw [if_neg all, produce_eq rfl]
        cases checked : Budget.check settings "crop" region.size.toPair with
        | error fault => exact .withheld proper checked
        | ok admitted =>
          refine .copied proper checked (layout_rearrange ..) (kind_rearrange ..)
            (channels_rearrange ..) size_eq ?_
          intro row col channel hr hc hk
          apply Raster.sampleAt_rearrange (Grid.draws_crop within) _ _ hk
          · rwa [Raster.height, size_eq]
          · rwa [Raster.width, size_eq]

/-- On a raster with sides below `2 ^ 50`, an accepted request whose rounded coordinates are finite
means all of the raster if it is marked full or asks for everything. Otherwise it is refused exactly
if its origin is beyond an edge, and means its rounded rectangle cut off at the far edges. The crop
fails, keeps the raster or copies the region accordingly. -/
theorem crop_takes_clamped_region {fields : Fields} {request : CropRequest}
    (read : CropRequest.ofFields fields = .ok request) {r : Raster} (narrow : r.width < 2 ^ 50)
    (low : r.height < 2 ^ 50) {reduction : Reduction}
    (finite : request.full = false → Succeeds (request.coordinates r.size.toPair reduction))
    (settings : Settings) :
    (request.full = true → request.region r.size.toPair reduction = .ok r.size.whole) ∧
    (request.full = false → ∃ x y width height : Nat,
      request.coordinates r.size.toPair reduction = .ok (x, y, width, height) ∧
        (OutOfShape (request.region r.size.toPair reduction) ↔ r.width < x ∨ r.height < y) ∧
        (x ≤ r.width → y ≤ r.height →
          request.region r.size.toPair reduction = .ok (r.size.clamp x y width height))) ∧
    (∀ region, request.region r.size.toPair reduction = .ok region →
      region.isWithin r.size = true) ∧
    (request.coversAll = true → request.region r.size.toPair reduction = .ok r.size.whole) ∧
    r.Cropped settings (request.region r.size.toPair reduction)
      (r.crop settings request reduction) := by
  have whole (covers : request.coversAll = true) :=
    CropRequest.region_of_coversAll covers narrow low reduction
  refine ⟨fun full => CropRequest.region_of_full full r.size reduction, ?_,
    fun region resolved => CropRequest.region_isWithin resolved, whole,
    Raster.crop_cropped settings whole⟩
  intro bounded
  obtain ⟨⟨x, y, width, height⟩, resolved⟩ := finite bounded
  obtain ⟨xNonneg, yNonneg, widthNonneg, heightNonneg⟩ :=
    (CropRequest.accepted read).coordinates_nonneg resolved
  lift x to Nat using xNonneg
  lift y to Nat using yNonneg
  lift width to Nat using widthNonneg
  lift height to Nat using heightNonneg
  exact ⟨x, y, width, height, resolved, CropRequest.region_clamped bounded resolved⟩

theorem crop_takes_clamped_region_at_corner :
    let r : Raster := .gray ⟨3, 2, #[0, 1, 2, 3, 4, 5], rfl⟩
    ∃ request, CropRequest.ofFields
        [("x", .whole 1), ("y", .whole 1), ("width", .whole 5), ("height", .whole 4)] =
          .ok request ∧
      Succeeds (request.coordinates r.size.toPair .none) ∧
      request.region r.size.toPair .none = .ok ⟨1, 1, 2, 1⟩ ∧
      r.Cropped .default (request.region r.size.toPair .none)
        (r.crop .default request .none) := by
  intro r
  have read : CropRequest.ofFields
      [("x", .whole 1), ("y", .whole 1), ("width", .whole 5), ("height", .whole 4)] =
        .ok ⟨.pixels, 1, 1, 5, 4, false⟩ := rfl
  have narrow : r.width < 2 ^ 50 := by decide
  have low : r.height < 2 ^ 50 := by decide
  have finite : Succeeds ((⟨.pixels, 1, 1, 5, 4, false⟩ : CropRequest).coordinates
      r.size.toPair .none) := ⟨(1, 1, 5, 4), rfl⟩
  obtain ⟨-, -, -, -, settled⟩ :=
    crop_takes_clamped_region read narrow low (fun _ => finite) .default
  exact ⟨_, read, finite, rfl, settled⟩

end RasterEdit
