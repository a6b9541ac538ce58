import RasterEdit.Proofs.Edit.Nested
import RasterEdit.Proofs.Raster.Mirror

/-!
# Crops of mirrored rasters

A crop and a mirror change places if the region is mirrored with the raster. What a rectangle cuts
out is then the same before and after, at the edges and where it is empty too.
-/

set_option autoImplicit false

namespace RasterEdit

open Binary Result

/-! ## Mirrored regions -/

/-- Where a region is found after its surroundings were mirrored. -/
def Region.mirrored (m : Mirror) (bounds : Size) (region : Region) : Region :=
  ⟨if m.columns then bounds.width - region.x - region.width else region.x,
    if m.rows then bounds.height - region.y - region.height else region.y,
    region.width, region.height⟩

namespace Region

variable {m : Mirror} {bounds : Size} {region : Region}

theorem isWithin_mirrored (within : region.isWithin bounds = true) :
    (region.mirrored m bounds).isWithin bounds = true := by
  obtain ⟨across, down⟩ := isWithin_iff.mp within
  rw [isWithin_iff]
  constructor
  · simp only [mirrored]
    split <;> omega
  · simp only [mirrored]
    split <;> omega

/-- The pixel that a mirrored crop has at `col` is that of the crop of the mirrored raster. -/
theorem column_mirrored (within : region.isWithin bounds = true) {col : Nat}
    (inside : col < region.width) :
    region.x + m.column region.size col =
      m.column bounds ((region.mirrored m bounds).x + col) := by
  obtain ⟨across, -⟩ := isWithin_iff.mp within
  simp only [Mirror.column, mirrored, Region.size]
  split <;> omega

theorem row_mirrored (within : region.isWithin bounds = true) {row : Nat}
    (inside : row < region.height) :
    region.y + m.row region.size row = m.row bounds ((region.mirrored m bounds).y + row) := by
  obtain ⟨-, down⟩ := isWithin_iff.mp within
  simp only [Mirror.row, mirrored, Region.size]
  split <;> omega

end Region

theorem Grid.mirror_crop {α : Type} (m : Mirror) {size : Size} {region : Region}
    (within : region.isWithin size = true) {g : Grid α} (width_eq : g.width = size.width)
    (height_eq : g.height = size.height) :
    (g.crop region).mirror m = (g.mirror m).crop (region.mirrored m size) := by
  have image := Region.isWithin_mirrored (m := m) within
  refine Grid.eq_of_draws
    (Grid.Draws.comp (draws_crop within) (resizes_crop within) (draws_mirror m region.size))
    (Grid.Draws.comp (draws_mirror m size) (resizes_mirror m size) (draws_crop image))
    (Grid.Resizes.comp (resizes_crop within) (resizes_mirror m region.size))
    (Grid.Resizes.comp (resizes_mirror m size) (resizes_crop image)) ?_ width_eq height_eq
  intro row col hr hc
  exact ⟨Region.row_mirrored within hr, Region.column_mirrored within hc⟩

theorem Raster.mirror_crop (m : Mirror) {r : Raster} {region : Region}
    (within : region.isWithin r.size = true) :
    (r.rearrange (Grid.crop region)).mirror m =
      (r.mirror m).rearrange (Grid.crop (region.mirrored m r.size)) :=
  calc (r.rearrange (Grid.crop region)).mirror m
    _ = r.rearrange fun g => (g.crop region).mirror m := rearrange_rearrange ..
    _ = r.rearrange fun g => (g.mirror m).crop (region.mirrored m r.size) :=
        rearrange_congr fun _ width_eq height_eq => Grid.mirror_crop m within width_eq height_eq
    _ = (r.mirror m).rearrange (Grid.crop (region.mirrored m r.size)) :=
        (rearrange_rearrange ..).symm

/-- The far edges leave all of a rectangle that is within the raster. -/
theorem Size.clamp_of_within {bounds : Size} {region : Region}
    (within : region.isWithin bounds = true) :
    bounds.clamp region.x region.y region.width region.height = region := by
  obtain ⟨across, down⟩ := Region.isWithin_iff.mp within
  have width_eq : min region.width (bounds.width - region.x) = region.width := by omega
  have height_eq : min region.height (bounds.height - region.y) = region.height := by omega
  rw [clamp, width_eq, height_eq]

/-- One half beside an odd column above `2 ^ 52` is rounded up to the next column. -/
theorem CropRequest.coordinates_far_column (size : Int × Int) :
    (⟨.pixels, Real64.ofInt (2 ^ 52 + 1 : Nat), 0, 1, 0, false⟩ : CropRequest).coordinates size
      .none = .ok ((2 ^ 52 + 2 : Nat), (0 : Nat), (1 : Nat), (0 : Nat)) := by
  have zero : Real64.IsWhole 0 0 := Real64.isWhole_ofNat (by decide)
  have one : Real64.IsWhole 1 1 := Real64.isWhole_ofNat (by decide)
  have further : roundHalfAway (Real64.ofInt (2 ^ 52 + 1 : Nat) *
      Real64.ofFraction 1 (1 <<< 0 : Nat)) = .ok ((2 ^ 52 + 2 : Nat) : Int) := rfl
  simp only [CropRequest.coordinates, Reduction.scale_none, ok_bind, further,
    zero.roundHalfAway (Nat.zero_le _), one.roundHalfAway (by decide)]
  rfl

/-! ## Crops and flips -/

namespace Edit

variable {settings : Settings} (free : Budget.limit settings none = .ok 0) {r : Raster}
  {region : Region}

include free

/-- A crop in whole pixels of which nothing is cut off. -/
theorem crop_leaves_region (within : region.isWithin r.size = true) {request : CropRequest}
    (means : request.Means region.x region.y region.width region.height)
    (small : ∀ n ∈ [region.x, region.y, region.width, region.height], n ≤ 2 ^ 52) :
    (crop request .none).leaves settings r = .ok (r.rearrange (Grid.crop region)) := by
  obtain ⟨across, down⟩ := Region.isWithin_iff.mp within
  have clamped := Size.clamp_of_within within
  rw [crop_leaves_of_coordinates free means.coversAll (means.coordinates small _)
    ((Nat.le_add_right ..).trans across) ((Nat.le_add_right ..).trans down), clamped]

theorem flip_leaves_mirror (direction : Flip) (r : Raster) :
    (flip direction).leaves settings r = .ok (r.mirror (.ofFlip direction)) := by
  rw [flip_leaves free, r.mirror_ofFlip]

section Orders

variable {request : CropRequest} {after : Raster} (direction : Flip)

theorem crop_then_flip (cropped : (crop request .none).leaves settings r = .ok after) :
    ((crop request .none).leaves settings r >>= (flip direction).leaves settings) =
      .ok (after.mirror (.ofFlip direction)) := by
  rw [cropped, ok_bind, flip_leaves_mirror free]

theorem flip_then_crop
    (cropped : (crop request .none).leaves settings (r.mirror (.ofFlip direction)) = .ok after) :
    ((flip direction).leaves settings r >>= (crop request .none).leaves settings) =
      .ok after := by
  rw [flip_leaves_mirror free, ok_bind, cropped]

end Orders

/-- A crop and a flip leave the same in either order if the region is mirrored. -/
theorem exists_flipped_crop (within : region.isWithin r.size = true) {direction : Flip}
    {straight turned : CropRequest}
    (means : straight.Means region.x region.y region.width region.height)
    (small : ∀ n ∈ [region.x, region.y, region.width, region.height], n ≤ 2 ^ 52)
    (image : Region) (image_eq : image = region.mirrored (.ofFlip direction) r.size)
    (turns : turned.Means image.x image.y image.width image.height)
    (near : ∀ n ∈ [image.x, image.y, image.width, image.height], n ≤ 2 ^ 52) :
    ∃ after, ((crop straight .none).leaves settings r >>= (flip direction).leaves settings) =
        .ok after ∧
      ((flip direction).leaves settings r >>= (crop turned .none).leaves settings) = .ok after ∧
      after.size = region.size ∧
      (after.sameNumbers after = true ↔ ∀ pattern ∈ after.toBlock.patterns,
        after.kind.isNaN (BitVec.ofNat _ pattern) = false) := by
  have imageWithin : image.isWithin (r.mirror (.ofFlip direction)).size = true := by
    rw [r.size_mirror, image_eq]
    exact Region.isWithin_mirrored within
  have cropped := crop_leaves_region free imageWithin turns near
  rw [image_eq, ← Raster.mirror_crop _ within] at cropped
  exact ⟨_, crop_then_flip free direction (crop_leaves_region free within means small),
    flip_then_crop free direction cropped,
    (Raster.size_mirror ..).trans (Raster.size_rearrange_crop within), Raster.sameNumbers_self_iff⟩

end Edit

namespace Edit

/-- Without a limit, a crop in whole pixels from within a raster and a flip can be exchanged: from
the flipped raster the region is taken that lies as far from the opposite edge. Both ways leave the
very same raster, which has equal numbers to itself exactly if no sample is NaN. The origin of the
mirrored region must be read exactly, which is so up to `2 ^ 52`. -/
theorem flips_commute_with_crops {settings : Settings} (free : Budget.limit settings none = .ok 0)
    {r : Raster} {x y width height : Nat} (small : ∀ n ∈ [x, y, width, height], n < 2 ^ 50)
    (across : x + width ≤ r.width) (down : y + height ≤ r.height)
    {straight : CropRequest} (means : straight.Means x y width height) :
    (r.width - x - width ≤ 2 ^ 52 → ∀ turned : CropRequest,
      turned.Means (r.width - x - width) y width height → ∃ after,
        ((crop straight .none).leaves settings r >>= (flip .horizontal).leaves settings) =
          .ok after ∧
        ((flip .horizontal).leaves settings r >>= (crop turned .none).leaves settings) =
          .ok after ∧
        after.size = ⟨width, height⟩ ∧
        (after.sameNumbers after = true ↔ ∀ pattern ∈ after.toBlock.patterns,
          after.kind.isNaN (BitVec.ofNat _ pattern) = false)) ∧
    (r.height - y - height ≤ 2 ^ 52 → ∀ turned : CropRequest,
      turned.Means x (r.height - y - height) width height → ∃ after,
        ((crop straight .none).leaves settings r >>= (flip .vertical).leaves settings) =
          .ok after ∧
        ((flip .vertical).leaves settings r >>= (crop turned .none).leaves settings) =
          .ok after ∧
        after.size = ⟨width, height⟩ ∧
        (after.sameNumbers after = true ↔ ∀ pattern ∈ after.toBlock.patterns,
          after.kind.isNaN (BitVec.ofNat _ pattern) = false)) := by
  have within : (⟨x, y, width, height⟩ : Region).isWithin r.size = true :=
    Region.isWithin_iff.mpr ⟨across, down⟩
  have exact : ∀ n ∈ [x, y, width, height], n ≤ 2 ^ 52 :=
    fun n listed => (small n listed).le.trans (by decide)
  have sides := exact
  simp only [List.forall_mem_cons] at sides
  obtain ⟨left, top, wide, high, -⟩ := sides
  constructor
  · intro near turned turns
    refine exists_flipped_crop free within means exact ⟨r.width - x - width, y, width, height⟩ rfl
      turns ?_
    simp only [List.forall_mem_cons]
    exact ⟨near, top, wide, high, nofun⟩
  · intro near turned turns
    refine exists_flipped_crop free within means exact ⟨x, r.height - y - height, width, height⟩ rfl
      turns ?_
    simp only [List.forall_mem_cons]
    exact ⟨left, near, wide, high, nofun⟩

theorem flips_commute_with_crops_at_corner :
    let r : Raster := .gray ⟨3, 2, #[0, 1, 2, 3, 4, 5], rfl⟩
    ∃ (straight across down : CropRequest) (turned overturned : Raster),
      straight.Means 0 0 2 1 ∧ across.Means 1 0 2 1 ∧ down.Means 0 1 2 1 ∧
      ((crop straight .none).leaves .default r >>= (flip .horizontal).leaves .default) =
        .ok turned ∧
      ((flip .horizontal).leaves .default r >>= (crop across .none).leaves .default) =
        .ok turned ∧
      ((crop straight .none).leaves .default r >>= (flip .vertical).leaves .default) =
        .ok overturned ∧
      ((flip .vertical).leaves .default r >>= (crop down .none).leaves .default) =
        .ok overturned := by
  intro r
  obtain ⟨straight, -, means⟩ := @CropRequest.exists_means 0 0 2 1 (by decide)
  obtain ⟨across, -, acrossMeans⟩ := @CropRequest.exists_means 1 0 2 1 (by decide)
  obtain ⟨down, -, downMeans⟩ := @CropRequest.exists_means 0 1 2 1 (by decide)
  have free : Budget.limit .default none = .ok 0 := rfl
  obtain ⟨horizontal, vertical⟩ :=
    @flips_commute_with_crops _ free r _ _ _ _ (by decide) (by decide) (by decide) _ means
  obtain ⟨turned, first, second, -⟩ := horizontal (by decide) across acrossMeans
  obtain ⟨overturned, third, fourth, -⟩ := vertical (by decide) down downMeans
  exact ⟨straight, across, down, turned, overturned, means, acrossMeans, downMeans, first, second,
    third, fourth⟩

/-- A raster with a NaN sample differs from itself, and a region that is to begin at the odd column
`2 ^ 52 + 1` begins one column further. -/
theorem flips_and_crops_differ :
    (let r : Raster := .custom .float32 .flat ⟨2, 1, #[#v[0x7FC00000], #v[0x3F800000]], rfl⟩
      let straight : CropRequest := ⟨.pixels, 0, 0, 1, 1, false⟩
      let turned : CropRequest := ⟨.pixels, 1, 0, 1, 1, false⟩
      straight.Means 0 0 1 1 ∧ turned.Means (r.width - 0 - 1) 0 1 1 ∧ ∃ left right : Raster,
        ((crop straight .none).leaves .default r >>= (flip .horizontal).leaves .default) =
          .ok left ∧
        ((flip .horizontal).leaves .default r >>= (crop turned .none).leaves .default) =
          .ok right ∧ left.sameNumbers right = false) ∧
    (let r : Raster := .gray ⟨2 ^ 52 + 2, 0, #[], rfl⟩
      let straight : CropRequest := ⟨.pixels, 0, 0, 1, 0, false⟩
      let turned : CropRequest := ⟨.pixels, Real64.ofInt (2 ^ 52 + 1 : Nat), 0, 1, 0, false⟩
      straight.Means 0 0 1 0 ∧ turned.Means (r.width - 0 - 1) 0 1 0 ∧ ∃ left right : Raster,
        ((crop straight .none).leaves .default r >>= (flip .horizontal).leaves .default) =
          .ok left ∧
        ((flip .horizontal).leaves .default r >>= (crop turned .none).leaves .default) =
          .ok right ∧
        left.size = ⟨1, 0⟩ ∧ right.size = ⟨0, 0⟩ ∧ left.sameNumbers right = false) := by
  have free : Budget.limit .default none = .ok 0 := rfl
  have zero : Real64.IsWhole 0 0 := Real64.isWhole_ofNat (by decide)
  have one : Real64.IsWhole 1 1 := Real64.isWhole_ofNat (by decide)
  constructor
  · intro r straight turned
    have means : straight.Means 0 0 1 1 := ⟨rfl, rfl, zero, zero, one, one⟩
    have turns : turned.Means 1 0 1 1 := ⟨rfl, rfl, one, zero, one, one⟩
    have within : Region.isWithin ⟨0, 0, 1, 1⟩ r.size = true := by decide
    have withinBehind :
        Region.isWithin ⟨1, 0, 1, 1⟩ (r.mirror (.ofFlip .horizontal)).size = true := by
      decide
    have cut := crop_leaves_region free within means (by decide)
    have cutBehind := crop_leaves_region free withinBehind turns (by decide)
    exact ⟨means, turns, _, _, crop_then_flip free _ cut, flip_then_crop free _ cutBehind,
      by decide +kernel⟩
  · intro r straight turned
    have far : Real64.IsWhole (Real64.ofInt (2 ^ 52 + 1 : Nat)) (2 ^ 52 + 1) :=
      Real64.isWhole_ofNat (by decide)
    have means : straight.Means 0 0 1 0 := ⟨rfl, rfl, zero, zero, one, zero⟩
    have turns : turned.Means (2 ^ 52 + 1) 0 1 0 := ⟨rfl, rfl, far, zero, one, zero⟩
    have within : Region.isWithin ⟨0, 0, 1, 0⟩ r.size = true := by decide
    have cut := crop_leaves_region free within means (by decide)
    have cutBehind := crop_leaves_of_coordinates free (r := r.mirror (.ofFlip .horizontal))
      turns.coversAll (CropRequest.coordinates_far_column _) (by decide) (by decide)
    exact ⟨means, turns, _, _, crop_then_flip free _ cut, flip_then_crop free _ cutBehind,
      by decide +kernel, by decide +kernel, by decide +kernel⟩

end Edit

end RasterEdit
