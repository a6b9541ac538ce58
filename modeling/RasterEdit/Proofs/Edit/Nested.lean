import RasterEdit.Proofs.Binary.Order
import RasterEdit.Proofs.Edit.Clamped
import RasterEdit.Proofs.Edit.Recolouring
import RasterEdit.Proofs.Raster.Numbers

/-!
# Crops of crops

Cropping what a crop has left is one crop of the first raster, whose origin is the sum of both
origins and whose sides end where the first crop ends. Either step may find nothing to do or leave
nothing.
-/

set_option autoImplicit false

namespace RasterEdit

open Binary Result

/-! ## Regions of regions -/

/-- A region of a region, as a region of the whole. -/
def Region.shifted (outer inner : Region) : Region :=
  ⟨outer.x + inner.x, outer.y + inner.y, inner.width, inner.height⟩

theorem Region.isWithin_shifted {outer inner : Region} {bounds : Size}
    (fits : outer.isWithin bounds = true) (inside : inner.isWithin outer.size = true) :
    (outer.shifted inner).isWithin bounds = true := by
  obtain ⟨across, down⟩ := isWithin_iff.mp fits
  obtain ⟨acrossInner, downInner⟩ := isWithin_iff.mp inside
  rw [isWithin_iff]
  change inner.x + inner.width ≤ outer.width at acrossInner
  change inner.y + inner.height ≤ outer.height at downInner
  constructor
  · change outer.x + inner.x + inner.width ≤ bounds.width
    omega
  · change outer.y + inner.y + inner.height ≤ bounds.height
    omega

theorem Size.isWithin_clamp {bounds : Size} {x y : Nat} (left : x ≤ bounds.width)
    (top : y ≤ bounds.height) (width height : Nat) :
    (bounds.clamp x y width height).isWithin bounds = true := by
  rw [Region.isWithin_iff]
  constructor
  · change x + min width (bounds.width - x) ≤ bounds.width
    omega
  · change y + min height (bounds.height - y) ≤ bounds.height
    omega

/-- Cutting off twice is cutting off once: what is inside the first rectangle is inside the far
edges. -/
theorem Size.shifted_clamp (bounds : Size) (x₁ y₁ w₁ h₁ x₂ y₂ w₂ h₂ : Nat) :
    let outer := bounds.clamp x₁ y₁ w₁ h₁
    outer.shifted (outer.size.clamp x₂ y₂ w₂ h₂) = bounds.clamp (x₁ + x₂) (y₁ + y₂)
      (min w₂ (outer.width - x₂)) (min h₂ (outer.height - y₂)) := by
  simp only [Region.shifted, clamp, Region.size, Region.mk.injEq, true_and]
  omega

namespace Grid

variable {α : Type} {g : Grid α} {size : Size} (width_eq : g.width = size.width)
  (height_eq : g.height = size.height)

include width_eq height_eq

theorem crop_crop {outer inner : Region} (fits : outer.isWithin size = true)
    (inside : inner.isWithin outer.size = true) :
    (g.crop outer).crop inner = g.crop (outer.shifted inner) := by
  have shifted := Region.isWithin_shifted fits inside
  refine eq_of_draws (Draws.comp (draws_crop fits) (resizes_crop fits) (draws_crop inside))
    (draws_crop shifted) (Resizes.comp (resizes_crop fits) (resizes_crop inside))
    (resizes_crop shifted) ?_ width_eq height_eq
  intro row col hr hc
  exact ⟨(Nat.add_assoc ..).symm, (Nat.add_assoc ..).symm⟩

theorem crop_whole : g.crop size.whole = g := by
  have fits : size.whole.isWithin size = true := by
    rw [Region.isWithin_iff]
    exact ⟨(Nat.zero_add _).le, (Nat.zero_add _).le⟩
  obtain ⟨width, height⟩ := sides_crop width_eq height_eq fits
  refine ext_get (width.trans width_eq.symm) (height.trans height_eq.symm) ?_
  intro row col hr hc
  obtain ⟨rowIn, colIn, drawn⟩ := draws_crop fits g width_eq height_eq hr hc
  exact drawn.trans (g.get_congr (Nat.zero_add row) (Nat.zero_add col) ..)

end Grid

namespace Raster

theorem rearrange_crop_crop {r : Raster} {outer inner : Region}
    (fits : outer.isWithin r.size = true) (inside : inner.isWithin outer.size = true) :
    (r.rearrange (Grid.crop outer)).rearrange (Grid.crop inner) =
      r.rearrange (Grid.crop (outer.shifted inner)) :=
  calc (r.rearrange (Grid.crop outer)).rearrange (Grid.crop inner)
    _ = r.rearrange fun g => (g.crop outer).crop inner := rearrange_rearrange ..
    _ = r.rearrange (Grid.crop (outer.shifted inner)) :=
        rearrange_congr fun _ width_eq height_eq => Grid.crop_crop width_eq height_eq fits inside

theorem rearrange_crop_whole (r : Raster) : r.rearrange (Grid.crop r.size.whole) = r :=
  calc r.rearrange (Grid.crop r.size.whole)
    _ = r.rearrange fun g => g :=
        rearrange_congr fun _ width_eq height_eq => Grid.crop_whole width_eq height_eq
    _ = r := by cases r <;> rfl

end Raster

/-! ## Requests in whole pixels -/

/-- A finite value that stands for a natural number. -/
structure Real64.IsWhole (v : Real64) (k : Nat) : Prop where
  finite : v.isFinite = true
  number_eq : v.number = k

theorem Real64.isWhole_ofNat {k : Nat} (small : k < 2 ^ 53) : IsWhole (Real64.ofInt k) k := by
  refine ⟨isFinite_of_small small, ?_⟩
  rw [number_eq_magnitude (isNegative_ofNat k ▸ Leans.isNegative _), magnitude_ofNat small]

theorem Real64.IsWhole.roundHalfAway {v : Real64} {k : Nat} (whole : v.IsWhole k)
    (small : k ≤ 2 ^ 52) :
    roundHalfAway (v * Real64.ofFraction 1 (1 <<< 0 : Nat)) = .ok (k : Int) := by
  have leans : v.Leans false := by
    apply leans_of_number_nonneg (by decide)
    rw [whole.number_eq]
    exact Nat.cast_nonneg k
  have magnitude_eq : v.magnitude = k := (number_eq_magnitude leans).symm.trans whole.number_eq
  have unit : Real64.ofFraction 1 (1 <<< 0 : Nat) = Binary.ofInt .binary64 1 := by decide
  rw [unit, mul_one_of_isFinite whole.finite, roundHalfAway_whole whole.finite magnitude_eq small]
  split
  · next negative =>
    have vanishes : k = 0 := by
      cases v with
      | nan => cases negative
      | signed s rank h =>
        obtain rfl | rfl := leans
        · exact_mod_cast magnitude_eq.symm.trans (Format.magnitude_zero .binary64)
        · cases negative
    rw [vanishes]
    rfl
  · rfl

/-- A field that holds a natural number is read as a value that stands for it. -/
theorem Field.withDefault_whole {fields : Fields} {name : String} {k : Nat}
    (given : fields.get? name = some (.whole k)) (small : k < 2 ^ 53) :
    withDefault fields name 0 (realAtLeast 0) = .valid (Real64.ofInt k) := by
  have zero := Real64.isWhole_ofNat (k := 0) (by decide)
  have whole := Real64.isWhole_ofNat small
  have finite : (Real64.ofInt k).isFinite = true := whole.finite
  have least : Binary.le (Real64.ofInt (0 : Nat)) (Real64.ofInt k) = true := by
    rw [le_iff (by decide) (isNaN_of_isFinite zero.finite) (isNaN_of_isFinite finite),
      zero.number_eq, whole.number_eq, Nat.cast_zero]
    exact Nat.cast_nonneg k
  simp only [withDefault, required, given, realAtLeast, restricted, real, finite, ↓reduceIte, least]

namespace CropRequest

/-- A request in whole pixels. -/
structure Means (r : CropRequest) (x y width height : Nat) : Prop where
  pixels : r.unit = .pixels
  bounded : r.full = false
  x_eq : r.x.IsWhole x
  y_eq : r.y.IsWhole y
  width_eq : r.width.IsWhole width
  height_eq : r.height.IsWhole height

variable {x y width height : Nat}

/-- Natural numbers in the fields of a request are its coordinates. -/
theorem exists_means (small : ∀ n ∈ [x, y, width, height], n < 2 ^ 53) :
    ∃ r, ofFields [("x", .whole x), ("y", .whole y), ("width", .whole width),
      ("height", .whole height)] = .ok r ∧ r.Means x y width height := by
  simp only [List.forall_mem_cons] at small
  obtain ⟨xSmall, ySmall, widthSmall, heightSmall, -⟩ := small
  refine ⟨⟨.pixels, Real64.ofInt x, Real64.ofInt y, Real64.ofInt width, Real64.ofInt height,
    false⟩, ?_, rfl, rfl, Real64.isWhole_ofNat xSmall, Real64.isWhole_ofNat ySmall,
    Real64.isWhole_ofNat widthSmall, Real64.isWhole_ofNat heightSmall⟩
  simp only [ofFields]
  rw [@Field.withDefault_whole _ "x" x rfl xSmall, @Field.withDefault_whole _ "y" y rfl ySmall,
    @Field.withDefault_whole _ "width" width rfl widthSmall,
    @Field.withDefault_whole _ "height" height rfl heightSmall]
  rfl

section Means

variable {r : CropRequest} (means : r.Means x y width height)

include means

theorem Means.coversAll : r.coversAll = false := by
  simp [CropRequest.coversAll, means.bounded, means.pixels]

theorem Means.coordinates (small : ∀ n ∈ [x, y, width, height], n ≤ 2 ^ 52) (size : Int × Int) :
    r.coordinates size .none = .ok (x, y, width, height) := by
  simp only [List.forall_mem_cons] at small
  obtain ⟨xSmall, ySmall, widthSmall, heightSmall, -⟩ := small
  simp only [CropRequest.coordinates, means.pixels, Reduction.scale_none, ok_bind,
    means.x_eq.roundHalfAway xSmall, means.y_eq.roundHalfAway ySmall,
    means.width_eq.roundHalfAway widthSmall, means.height_eq.roundHalfAway heightSmall]
  rfl

end Means

end CropRequest

/-! ## One crop -/

namespace Edit

variable {settings : Settings} (free : Budget.limit settings none = .ok 0) {request : CropRequest}
  {x y width height : Nat} {r : Raster}

include free

/-- A crop from inside the raster leaves its rectangle, cut off at the far edges; that it leaves the
very raster where the rectangle is all of it makes no difference. -/
theorem crop_leaves_of_coordinates (proper : request.coversAll = false)
    (read : request.coordinates r.size.toPair .none = .ok (x, y, width, height))
    (left : x ≤ r.width) (top : y ≤ r.height) :
    (crop request .none).leaves settings r =
      .ok (r.rearrange (Grid.crop (r.size.clamp x y width height))) := by
  have bounded : request.full = false := (Bool.or_eq_false_iff.mp proper).1
  have resolved := (CropRequest.region_clamped bounded read).2 left top
  cases all : (r.size.clamp x y width height).covers r.size with
  | true =>
    rw [leaves_eq free, plan, proper, resolved, ok_bind, all, Region.covers_iff.mp all,
      r.rearrange_crop_whole]
    rfl
  | false =>
    rw [leaves_eq free, plan, proper, resolved, ok_bind, all]
    simp only [make, resolved]
    rfl

variable (means : request.Means x y width height)
  (small : ∀ n ∈ [x, y, width, height], n < 2 ^ 50)

include means small

theorem crop_leaves_of_inside (left : x ≤ r.width) (top : y ≤ r.height) :
    (crop request .none).leaves settings r =
      .ok (r.rearrange (Grid.crop (r.size.clamp x y width height))) :=
  crop_leaves_of_coordinates free means.coversAll
    (means.coordinates (fun n listed => (small n listed).le.trans (by decide)) _) left top

theorem crop_leaves_outside (outside : r.width < x ∨ r.height < y) :
    OutOfShape ((crop request .none).leaves settings r) := by
  have read := means.coordinates (fun n listed => (small n listed).le.trans (by decide))
  have resolved := CropRequest.region_clamped means.bounded (read r.size.toPair)
  obtain ⟨cause, operation, size, refused⟩ := resolved.1.mpr outside
  refine ⟨cause, operation, size, ?_⟩
  rw [leaves_eq free, plan, means.coversAll, refused]
  rfl

end Edit

/-! ## Crop after crop -/

namespace Edit

/-- Without a limit, two crops of whole pixels end like one. If the second begins inside what the
first has left, both ways leave the very same raster, which has equal numbers to itself exactly if
no sample is NaN. Otherwise the second is refused for its geometry. -/
theorem crops_compose {settings : Settings} (free : Budget.limit settings none = .ok 0)
    {r mid : Raster} (narrow : r.width < 2 ^ 50) (low : r.height < 2 ^ 50)
    {x₁ y₁ w₁ h₁ x₂ y₂ w₂ h₂ : Nat} (outerSmall : ∀ n ∈ [x₁, y₁, w₁, h₁], n < 2 ^ 50)
    (innerSmall : ∀ n ∈ [x₂, y₂, w₂, h₂], n < 2 ^ 50)
    {first second : CropRequest} (outer : first.Means x₁ y₁ w₁ h₁)
    (inner : second.Means x₂ y₂ w₂ h₂) (cropped : (crop first .none).leaves settings r = .ok mid) :
    (x₂ ≤ mid.width → y₂ ≤ mid.height → ∀ both : CropRequest,
      both.Means (x₁ + x₂) (y₁ + y₂) (min w₂ (mid.width - x₂)) (min h₂ (mid.height - y₂)) →
      ∃ after, (crop second .none).leaves settings mid = .ok after ∧
        (crop both .none).leaves settings r = .ok after ∧
        (after.sameNumbers after = true ↔ ∀ pattern ∈ after.toBlock.patterns,
          after.kind.isNaN (BitVec.ofNat _ pattern) = false)) ∧
    (mid.width < x₂ ∨ mid.height < y₂ →
      OutOfShape ((crop second .none).leaves settings mid)) := by
  -- The first crop was not refused, so its origin lies inside the raster.
  have begins : ¬(r.width < x₁ ∨ r.height < y₁) := by
    intro outside
    obtain ⟨cause, operation, size, refused⟩ := crop_leaves_outside free outer outerSmall outside
    rw [refused] at cropped
    cases cropped
  obtain ⟨left, top⟩ := not_or.mp begins
  rw [not_lt] at left top
  rw [crop_leaves_of_inside free outer outerSmall left top] at cropped
  have mid_eq := Except.ok.inj cropped
  have fits : (r.size.clamp x₁ y₁ w₁ h₁).isWithin r.size = true := Size.isWithin_clamp left top ..
  have size_eq : mid.size = (r.size.clamp x₁ y₁ w₁ h₁).size :=
    mid_eq ▸ Raster.size_rearrange_crop fits
  refine ⟨?_, crop_leaves_outside free inner innerSmall⟩
  intro innerLeft innerTop both means
  have inside : (mid.size.clamp x₂ y₂ w₂ h₂).isWithin (r.size.clamp x₁ y₁ w₁ h₁).size = true :=
    size_eq ▸ Size.isWithin_clamp innerLeft innerTop ..
  have shifted : (r.size.clamp x₁ y₁ w₁ h₁).shifted (mid.size.clamp x₂ y₂ w₂ h₂) =
      r.size.clamp (x₁ + x₂) (y₁ + y₂) (min w₂ (mid.width - x₂)) (min h₂ (mid.height - y₂)) := by
    rw [Raster.width, Raster.height, size_eq]
    exact r.size.shifted_clamp ..
  have width_eq : mid.width = min w₁ (r.width - x₁) := congrArg Size.width size_eq
  have height_eq : mid.height = min h₁ (r.height - y₁) := congrArg Size.height size_eq
  have bothSmall : ∀ n ∈ [x₁ + x₂, y₁ + y₂, min w₂ (mid.width - x₂), min h₂ (mid.height - y₂)],
      n < 2 ^ 50 := by
    intro n listed
    simp only [List.mem_cons, List.not_mem_nil, or_false] at listed
    omega
  refine ⟨_, crop_leaves_of_inside free inner innerSmall innerLeft innerTop, ?_,
    Raster.sameNumbers_self_iff⟩
  rw [crop_leaves_of_inside free means bothSmall (by omega) (by omega), ← shifted,
    ← Raster.rearrange_crop_crop fits inside, mid_eq]

theorem crops_compose_at_corner :
    let r : Raster := .gray ⟨3, 2, #[0, 1, 2, 3, 4, 5], rfl⟩
    ∃ (first second both : CropRequest) (mid after : Raster),
      first.Means 1 0 5 5 ∧ second.Means 1 1 9 9 ∧ both.Means 2 1 1 1 ∧
      (crop first .none).leaves .default r = .ok mid ∧ mid.size = ⟨2, 2⟩ ∧
      (crop second .none).leaves .default mid = .ok after ∧
      (crop both .none).leaves .default r = .ok after := by
  intro r
  obtain ⟨first, -, outer⟩ := @CropRequest.exists_means 1 0 5 5 (by decide)
  obtain ⟨second, -, inner⟩ := @CropRequest.exists_means 1 1 9 9 (by decide)
  obtain ⟨both, -, means⟩ := @CropRequest.exists_means 2 1 1 1 (by decide)
  have free : Budget.limit .default none = .ok 0 := rfl
  have cropped := crop_leaves_of_inside free outer (by decide) (by decide : 1 ≤ r.width)
    (by decide : 0 ≤ r.height)
  obtain ⟨after, twice, once, -⟩ := (crops_compose free (by decide) (by decide) (by decide)
    (by decide) outer inner cropped).1 (by decide) (by decide) both means
  exact ⟨first, second, both, _, after, outer, inner, means, cropped, rfl, twice, once⟩

/-- Where a sample is NaN, both ways leave the same raster, but rasters with equal samples do not
have equal numbers. -/
theorem crops_of_nan_differ :
    let r : Raster := .custom .float32 .flat ⟨2, 1, #[#v[0x7FC00000], #v[0x3F800000]], rfl⟩
    let corner : CropRequest := ⟨.pixels, 0, 0, 1, 1, false⟩
    corner.Means 0 0 1 1 ∧ ∃ mid twice once : Raster,
      (crop corner .none).leaves .default r = .ok mid ∧ mid.size = ⟨1, 1⟩ ∧
      (crop corner .none).leaves .default mid = .ok twice ∧
      (crop corner .none).leaves .default r = .ok once ∧ twice.sameNumbers once = false := by
  intro r corner
  have zero : Real64.IsWhole 0 0 := Real64.isWhole_ofNat (by decide)
  have one : Real64.IsWhole 1 1 := Real64.isWhole_ofNat (by decide)
  have means : corner.Means 0 0 1 1 := ⟨rfl, rfl, zero, zero, one, one⟩
  have free : Budget.limit .default none = .ok 0 := rfl
  have small : ∀ n ∈ [0, 0, 1, 1], n < 2 ^ 50 := by decide
  have cropped := crop_leaves_of_inside free means small (Nat.zero_le r.width)
    (Nat.zero_le r.height)
  exact ⟨means, _, _, _, cropped, rfl,
    crop_leaves_of_inside free means small (Nat.zero_le _) (Nat.zero_le _), cropped,
    by decide +kernel⟩

end Edit

end RasterEdit
