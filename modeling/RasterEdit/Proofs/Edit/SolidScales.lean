import RasterEdit.Proofs.Edit.Checks
import RasterEdit.Proofs.Edit.Recolouring
import RasterEdit.Proofs.Image.SolidGrids
import RasterEdit.Proofs.Raster.Samples

/-!
# Scaled rasters of one colour

Scaling keeps the colour of a raster whose pixels are all equal, whatever the request is, and
succeeds if both sides of its target are words of 32 bits. The better quality keeps it while it
averages blocks of at most 33156 pixels; a white block of one pixel more comes out darker.
-/

set_option autoImplicit false

namespace RasterEdit

open Resample (Resized reductionFactor)
open Result (Succeeds)

namespace Raster

/-- All pixels have the same samples, those of one shade for each channel. -/
def IsSolid (r : Raster) (shade : Nat → Nat) : Prop :=
  ∀ row < r.height, ∀ col < r.width, ∀ channel < r.channels,
    r.sampleAt row col channel = shade channel

variable {shade : Nat → Nat}

theorem IsSolid.exists_colour {order : ColourOrder} {pixels : Grid Rgb}
    (solid : (colour order pixels).IsSolid shade) (wide : 0 < pixels.width)
    (high : 0 < pixels.height) :
    ∃ w h p, pixels = .replicate w h p ∧ ∀ k (hk : k < 3), p[k].toNat = shade k := by
  have shades (k : Nat) (hk : k < 3) {row col : Nat} (hr : row < pixels.height)
      (hc : col < pixels.width) : (pixels.get row col hr hc)[k].toNat = shade k :=
    (sampleAt_colour hr hc hk).symm.trans (solid _ hr _ hc k hk)
  refine ⟨pixels.width, pixels.height, pixels.get 0 0 high wide, ?_,
    fun k hk => shades k hk high wide⟩
  refine Grid.eq_replicate fun row col hr hc => Vector.ext fun k hk => UInt8.toNat_inj.mp ?_
  exact (shades k hk hr hc).trans (shades k hk high wide).symm

theorem IsSolid.exists_gray {pixels : Grid UInt8} (solid : (gray pixels).IsSolid shade)
    (wide : 0 < pixels.width) (high : 0 < pixels.height) :
    ∃ w h v, pixels = .replicate w h v ∧ v.toNat = shade 0 := by
  have shades {row col : Nat} (hr : row < pixels.height) (hc : col < pixels.width) :
      (pixels.get row col hr hc).toNat = shade 0 :=
    (sampleAt_gray hr hc).symm.trans (solid _ hr _ hc 0 Nat.one_pos)
  refine ⟨pixels.width, pixels.height, pixels.get 0 0 high wide, ?_, shades high wide⟩
  refine Grid.eq_replicate fun row col hr hc => UInt8.toNat_inj.mp ?_
  exact (shades hr hc).trans (shades high wide).symm

theorem isSolid_colour {order : ColourOrder} {width height : Nat} {p : Rgb}
    (shades : ∀ k (hk : k < 3), p[k].toNat = shade k) :
    (colour order (.replicate width height p)).IsSolid shade := by
  intro row hr col hc channel hk
  have hr' : row < height := hr
  have hc' : col < width := hc
  have hk' : channel < 3 := hk
  rw [sampleAt_colour hr hc hk', Grid.get_replicate p hr' hc']
  exact shades channel hk'

theorem isSolid_gray {width height : Nat} {v : UInt8} (shades : v.toNat = shade 0) :
    (gray (.replicate width height v)).IsSolid shade := by
  intro row hr col hc channel hk
  have hr' : row < height := hr
  have hc' : col < width := hc
  obtain rfl : channel = 0 := Nat.lt_one_iff.mp hk
  rw [sampleAt_gray hr hc, Grid.get_replicate v hr' hc']
  exact shades

end Raster

/-! ## The work of a scale -/

section Pictures

variable {quality : Picture.Quality} {w h width height : Nat} (across : Resized w width)
  (down : Resized h height) (bears : quality.Bears w h width height)

include across down bears

theorem Picture.resampled_rgb_replicate (p : Rgb) :
    (Picture.rgb (.replicate w h p)).resampled quality width height =
      .rgb (.replicate width height p) := by
  rw [resampled, quality.resize_replicate across down bears]

theorem Picture.resampled_gray_replicate (v : UInt8) :
    (Picture.gray (.replicate w h v)).resampled quality width height =
      .gray (.replicate width height v) := by
  rw [resampled, Grid.map_replicate, quality.resize_replicate across down bears, Grid.map_replicate]
  rfl

end Pictures

namespace Edit

variable {settings : Settings} {request : ScaleRequest} {reduction : Reduction}
  {highQuality : Bool} {r : Raster}

/-- How a scale resizes. -/
def quality (settings : Settings) (highQuality : Bool) : Picture.Quality :=
  if highQuality then .fine settings.reducingGap else .fast

theorem solid_of_make {width height : Nat} (layout : r.layout ∈ [.rgb, .bgr, .gray8])
    (across : Resized r.width width) (down : Resized r.height height)
    (bears : (quality settings highQuality).Bears r.width r.height width height)
    {shade : Nat → Nat} (solid : r.IsSolid shade) :
    ∃ after, (scale request reduction highQuality).make settings ⟨width, height⟩ r = .ok after ∧
      after.layout = r.layout ∧ after.size = ⟨width, height⟩ ∧ after.IsSolid shade := by
  cases r with
  | colour order pixels =>
    obtain ⟨w, h, p, rfl, shades⟩ := solid.exists_colour across.nonempty down.nonempty
    refine ⟨.colour order (.replicate width height p), ?_, rfl, rfl, Raster.isSolid_colour shades⟩
    have resized := Picture.resampled_rgb_replicate across down bears (reorder order.toCanonical p)
    rw [← Grid.map_replicate] at resized
    refine (congrArg (Raster.ofPicture (.colour order)) resized).trans ?_
    rw [Raster.ofPicture, Picture.toRgb, Grid.map_replicate,
      ColourOrder.reorder_ofCanonical_toCanonical]
  | gray pixels =>
    obtain ⟨w, h, v, rfl, shades⟩ := solid.exists_gray across.nonempty down.nonempty
    refine ⟨.gray (.replicate width height v), ?_, rfl, rfl, Raster.isSolid_gray shades⟩
    have resized := Picture.resampled_gray_replicate across down bears v
    exact congrArg (Raster.ofPicture .gray8) resized
  | _ => simp [Raster.layout] at layout

section Resolved

variable (free : Budget.limit settings none = .ok 0) (standard : r.layout.isStandard = true)
  (nonempty : r.size.isEmpty = false) {target : Int × Int}
  (resolved : request.target r.size.toPair reduction = .ok target)

include free standard nonempty resolved

/-- What a scale leaves if its target is known: the raster itself, or its work if the sides allow
for it. -/
theorem scale_leaves_eq : (scale request reduction highQuality).leaves settings r =
    if target = r.size.toPair then .ok r
    else Picture.checkSides ⟨target.1.toNat, target.2.toNat⟩ >>= fun _ =>
      (scale request reduction highQuality).make settings ⟨target.1.toNat, target.2.toNat⟩ r := by
  rw [leaves_eq free]
  simp only [plan, resolved, Result.ok_bind, standard, nonempty, Bool.not_true, Bool.false_eq_true,
    ↓reduceIte]
  split <;> rfl

theorem scale_leaves_succeeds :
    Succeeds ((scale request reduction highQuality).leaves settings r) ↔
      target = r.size.toPair ∨ target.1 < 2 ^ 31 ∧ target.2 < 2 ^ 31 := by
  rw [scale_leaves_eq free standard nonempty resolved]
  split
  · next reached => exact iff_of_true (Result.succeeds_ok r) (.inl reached)
  · next proper =>
    have planned : Planned r.layout r.size (scale request reduction highQuality) _ :=
      .scale resolved proper standard nonempty
    obtain ⟨after, made, -⟩ := make_of_plan settings (plan_of_planned planned)
    have works : Succeeds ((scale request reduction highQuality).make settings
        ⟨target.1.toNat, target.2.toNat⟩ r) := ⟨after, made⟩
    rw [Result.succeeds_bind_and fun _ => iff_of_true works trivial, Picture.checkSides_succeeds]
    simp only [and_true, proper, false_or]
    omega

end Resolved

theorem exists_scaled {after : Raster}
    (left : (scale request reduction highQuality).leaves settings r = .ok after) :
    ∃ outcome, r.scale settings request reduction highQuality = .ok outcome ∧
      outcome.raster r = after := by
  cases scaled : r.scale settings request reduction highQuality with
  | error fault =>
    rw [leaves, show (scale request reduction highQuality).apply settings r = _ from scaled] at left
    cases left
  | ok outcome =>
    rw [leaves, show (scale request reduction highQuality).apply settings r = _ from scaled] at left
    exact ⟨outcome, rfl, Except.ok.inj left⟩

end Edit

theorem Settings.one_le_reducingGap : 1 ≤ Settings.default.reducingGap.number := by
  have two : Settings.default.reducingGap.number = 2 := by
    exact_mod_cast Real64.number_ofInt (n := 2) (by decide)
  rw [two]
  norm_num

namespace Raster

/-- Scaling keeps the colour of a raster that has a single one at any size, and succeeds if both
sides are words of 32 bits. In the better quality, blocks of up to 33156 pixels may be averaged. -/
theorem solid_colour_survives_scaling {r : Raster} (layout : r.layout ∈ [.rgb, .bgr, .gray8])
    (across : 1 ≤ r.width ∧ r.width ≤ 16384) (down : 1 ≤ r.height ∧ r.height ≤ 16384)
    {shade : Nat → Nat} (solid : r.IsSolid shade) {request : ScaleRequest} {reduction : Reduction}
    {target : Int × Int} (resolved : request.target r.size.toPair reduction = .ok target)
    {highQuality : Bool}
    (averaged : highQuality = true →
      reductionFactor r.width target.1.toNat Settings.default.reducingGap *
        reductionFactor r.height target.2.toNat Settings.default.reducingGap ≤ 33156) :
    (Succeeds (r.scale .default request reduction highQuality) ↔
      target.1 < 2 ^ 31 ∧ target.2 < 2 ^ 31) ∧
    ∀ outcome, r.scale .default request reduction highQuality = .ok outcome →
      (outcome.raster r).layout = r.layout ∧
      (outcome.raster r).size = ⟨target.1.toNat, target.2.toNat⟩ ∧
      (outcome.raster r).IsSolid shade := by
  have standard : r.layout.isStandard = true := by
    cases r with
    | custom kind axis pixels => simp [Raster.layout] at layout
    | _ => rfl
  have nonempty : r.size.isEmpty = false := by
    rw [Size.isEmpty, Bool.or_eq_false_iff, beq_eq_false_iff_ne, beq_eq_false_iff_ne]
    exact ⟨Nat.ne_of_gt across.1, Nat.ne_of_gt down.1⟩
  have free : Budget.limit .default none = .ok 0 := rfl
  have small {target : Int × Int} (reached : target = r.size.toPair) :
      target.1 < 2 ^ 31 ∧ target.2 < 2 ^ 31 := by
    have width : target.1 = (r.width : Int) := congrArg Prod.fst reached
    have height : target.2 = (r.height : Int) := congrArg Prod.snd reached
    omega
  constructor
  · have succeeds := @Edit.scale_leaves_succeeds .default request reduction highQuality r free
      standard nonempty target resolved
    rw [or_iff_right_of_imp small] at succeeds
    exact Result.succeeds_map.symm.trans succeeds
  · intro outcome scaled
    have left : (Edit.scale request reduction highQuality).leaves .default r =
        .ok (outcome.raster r) := congrArg (Except.map (Outcome.raster r)) scaled
    rw [Edit.scale_leaves_eq free standard nonempty resolved] at left
    split at left
    · next reached =>
      rw [← Except.ok.inj left, reached]
      exact ⟨rfl, rfl, solid⟩
    · obtain ⟨_, checked, left⟩ := Result.bind_eq_ok.mp left
      obtain ⟨narrow, low⟩ : target.1.toNat < 2 ^ 31 ∧ target.2.toNat < 2 ^ 31 :=
        Picture.checkSides_succeeds.mp ⟨_, checked⟩
      obtain ⟨wide, high⟩ := request.target_pos resolved
      have horizontal : Resized r.width target.1.toNat :=
        ⟨across.1, across.2, by omega, Real64.isFinite_of_small (by omega)⟩
      have vertical : Resized r.height target.2.toNat :=
        ⟨down.1, down.2, by omega, Real64.isFinite_of_small (by omega)⟩
      have bears : (Edit.quality .default highQuality).Bears r.width r.height target.1.toNat
          target.2.toNat := by
        cases highQuality with
        | false => trivial
        | true => exact ⟨by decide, Settings.one_le_reducingGap, averaged rfl⟩
      obtain ⟨after, made, layout_eq, size_eq, kept⟩ :=
        Edit.solid_of_make layout horizontal vertical bears solid
      obtain rfl := Except.ok.inj (left.symm.trans made)
      exact ⟨layout_eq, size_eq, kept⟩

theorem solid_colour_survives_scaling_blue_first :
    let r : Raster := .colour .bgr (.replicate 64 48 #v[30, 20, 10])
    ∃ request outcome, ScaleRequest.ofFields
        [("mode", .text "non_aspect_fill"), ("width", .whole 5), ("height", .whole 4)] =
          .ok request ∧
      r.scale .default request .none true = .ok outcome ∧ (outcome.raster r).layout = .bgr ∧
      (outcome.raster r).size = ⟨5, 4⟩ ∧
      (outcome.raster r).IsSolid fun channel => 30 - 10 * channel := by
  intro r
  have read : ScaleRequest.ofFields
      [("mode", .text "non_aspect_fill"), ("width", .whole 5), ("height", .whole 4)] =
        .ok ⟨.fill, some (.whole 5), some (.whole 4), none⟩ := rfl
  have solid : r.IsSolid fun channel => 30 - 10 * channel :=
    isSolid_colour (p := #v[30, 20, 10]) (by decide)
  have resolved : ScaleRequest.target ⟨.fill, some (.whole 5), some (.whole 4), none⟩
      r.size.toPair .none = .ok (5, 4) := rfl
  obtain ⟨succeeds, solidly⟩ :=
    solid_colour_survives_scaling (by decide) (by decide) (by decide) solid resolved
      (fun _ => show reductionFactor 64 5 _ * reductionFactor 48 4 _ ≤ 33156 by decide +kernel)
  obtain ⟨outcome, scaled⟩ := succeeds.mpr ⟨by decide, by decide⟩
  exact ⟨_, outcome, read, scaled, solidly outcome scaled⟩

/-- A white raster that is scaled to one pixel by way of four blocks of 33157 pixels. -/
theorem white_darkens_in_large_blocks :
    let r : Raster := .gray (.replicate 934 142 255)
    ∃ request outcome, ScaleRequest.ofFields
        [("mode", .text "non_aspect_fill"), ("width", .whole 1), ("height", .whole 1)] =
          .ok request ∧
      r.IsSolid (fun _ => 255) ∧ request.target r.size.toPair .none = .ok (1, 1) ∧
      r.scale .default request .none true = .ok outcome ∧
      (outcome.raster r).sampleAt 0 0 0 = 254 := by
  intro r
  have read : ScaleRequest.ofFields
      [("mode", .text "non_aspect_fill"), ("width", .whole 1), ("height", .whole 1)] =
        .ok ⟨.fill, some (.whole 1), some (.whole 1), none⟩ := rfl
  have resolved : ScaleRequest.target ⟨.fill, some (.whole 1), some (.whole 1), none⟩
      r.size.toPair .none = .ok (1, 1) := rfl
  have across : Resized 934 1 := ⟨by decide, by decide, by decide, by decide⟩
  have down : Resized 142 1 := ⟨by decide, by decide, by decide, by decide⟩
  have columns : reductionFactor 934 1 Settings.default.reducingGap = 467 := by decide +kernel
  have rows : reductionFactor 142 1 Settings.default.reducingGap = 71 := by decide +kernel
  have averaged := Resample.reduce_replicate_of_dvd (w := 934) (h := 142) (n := 1)
    (p := .replicate 1 255) (q := .replicate 1 254) ⟨2, congrArg (· * 2) columns.symm⟩
    ⟨2, congrArg (· * 2) rows.symm⟩ (by rw [columns, rows]; decide +kernel)
  have fine := Resample.resizeFine_of_reduce across down (by decide) Settings.one_le_reducingGap
    (by rw [columns]; decide) averaged
  have picture : (Picture.gray (.replicate 934 142 255)).resampled
      (Edit.quality .default true) 1 1 = .gray (.replicate 1 1 254) := by
    rw [Picture.resampled, Grid.map_replicate]
    exact (congrArg (fun pixels => Picture.gray (pixels.map Pixel.first)) fine).trans
      (congrArg Picture.gray (Grid.map_replicate Pixel.first 1 1 _))
  have made : (Edit.scale ⟨.fill, some (.whole 1), some (.whole 1), none⟩ .none true).make .default
      ⟨1, 1⟩ r = .ok (.gray (.replicate 1 1 254)) := congrArg (ofPicture .gray8) picture
  have free : Budget.limit .default none = .ok 0 := rfl
  have left : (Edit.scale ⟨.fill, some (.whole 1), some (.whole 1), none⟩ .none true).leaves
      .default r = .ok (.gray (.replicate 1 1 254)) :=
    (Edit.scale_leaves_eq free (show r.layout.isStandard = true from rfl)
      (show r.size.isEmpty = false from rfl) resolved).trans made
  obtain ⟨outcome, scaled, same⟩ := Edit.exists_scaled left
  have darker : (gray (.replicate 1 1 254)).IsSolid fun _ => 254 := isSolid_gray rfl
  refine ⟨_, outcome, read, isSolid_gray rfl, resolved, scaled, ?_⟩
  rw [same]
  exact darker 0 Nat.one_pos 0 Nat.one_pos 0 Nat.one_pos

end Raster

end RasterEdit
