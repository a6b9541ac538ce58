import RasterEdit.Proofs.Edit.Nested
import RasterEdit.Proofs.Geometry.Shares

/-!
# Crops that split a raster

Two crops in fractions that add up to one share a raster: the second begins where the first ends,
and both together are the raster again. Where both extents are rounded up, the second crop is cut
off at the far edge.
-/

set_option autoImplicit false

namespace RasterEdit

open Binary Result

/-! ## Joined grids -/

namespace Grid

variable {α : Type}

/-- Two grids on one sheet, the first at the origin and the second at `(x, y)` where the first one
leaves room for it. -/
def paste (width height : Nat) (first second : Grid α) (x y : Nat)
    (covered : ∀ row < height, ∀ col < width, ¬(row < first.height ∧ col < first.width) →
      row - y < second.height ∧ col - x < second.width) : Grid α :=
  ofFn width height fun row col hr hc =>
    if inFirst : row < first.height ∧ col < first.width then first.get row col inFirst.1 inFirst.2
    else
      second.get (row - y) (col - x) (covered row hr col hc inFirst).1
        (covered row hr col hc inFirst).2

/-- Two grids side by side, as far down as both reach. -/
def beside (left right : Grid α) : Grid α :=
  paste (left.width + right.width) (min left.height right.height) left right left.width 0
    (by omega)

/-- Two grids one above the other, as far across as both reach. -/
def above (top bottom : Grid α) : Grid α :=
  paste (min top.width bottom.width) (top.height + bottom.height) top bottom 0 top.height
    (by omega)

/-- A grid is two of its rectangles on one sheet if the second is put where it was taken from. -/
theorem paste_crop {g : Grid α} {size : Size} (width_eq : g.width = size.width)
    (height_eq : g.height = size.height) {first second : Region} (corner : first.x = 0 ∧ first.y = 0)
    (fitsFirst : first.isWithin size = true) (fitsSecond : second.isWithin size = true)
    (beyond : ∀ row < size.height, ∀ col < size.width,
      ¬(row < first.height ∧ col < first.width) → second.y ≤ row ∧ second.x ≤ col)
    {width height x y : Nat} (across : width = size.width) (down : height = size.height)
    (x_eq : x = second.x) (y_eq : y = second.y) {covered} : paste width height (g.crop first) (g.crop second) x y covered = g := by
  subst across down x_eq y_eq
  obtain ⟨firstWidth, firstHeight⟩ := sides_crop width_eq height_eq fitsFirst
  refine ext_get width_eq.symm height_eq.symm ?_
  intro row col (hr : row < size.height) (hc : col < size.width)
  refine (get_ofFn ..).trans ?_
  split
  · next inFirst =>
    obtain ⟨_, _, drawn⟩ := draws_crop fitsFirst g width_eq height_eq inFirst.1 inFirst.2
    have row_eq : first.y + row = row := by omega
    have col_eq : first.x + col = col := by omega
    exact drawn.trans (g.get_congr row_eq col_eq ..)
  · next outside =>
    rw [firstWidth, firstHeight] at outside
    obtain ⟨below, right⟩ := beyond row hr col hc outside
    obtain ⟨_, _, drawn⟩ := draws_crop fitsSecond g width_eq height_eq _ _
    exact drawn.trans (g.get_congr (Nat.add_sub_of_le below) (Nat.add_sub_of_le right) ..)

end Grid

/-! ## Strips -/

/-- One of the two ways through a raster. -/
inductive Axis where
  | across | down

namespace Axis

/-- The length of a raster on its way. -/
def length (size : Size) : Axis → Nat
  | across => size.width
  | down => size.height

/-- Some columns of a raster, or some of its rows. -/
def strip (size : Size) (first count : Nat) : Axis → Region
  | across => ⟨first, 0, count, size.height⟩
  | down => ⟨0, first, size.width, count⟩

def join {α : Type} (first second : Grid α) : Axis → Grid α
  | across => first.beside second
  | down => first.above second

theorem isWithin_strip (axis : Axis) {size : Size} {first count : Nat}
    (inside : first + count ≤ axis.length size) :
    (axis.strip size first count).isWithin size = true := by
  cases axis with
  | across => exact Region.isWithin_iff.mpr ⟨inside, (Nat.zero_add _).le⟩
  | down => exact Region.isWithin_iff.mpr ⟨(Nat.zero_add _).le, inside⟩

/-- A grid that is cut in two is joined again from its parts. -/
theorem join_strips (axis : Axis) {α : Type} {g : Grid α} {size : Size}
    (width_eq : g.width = size.width) (height_eq : g.height = size.height) {cut : Nat}
    (inside : cut ≤ axis.length size) :
    axis.join (g.crop (axis.strip size 0 cut))
      (g.crop (axis.strip size cut (axis.length size - cut))) = g := by
  have fitsFirst : (axis.strip size 0 cut).isWithin size = true :=
    axis.isWithin_strip ((Nat.zero_add cut).trans_le inside)
  have fitsSecond : (axis.strip size cut (axis.length size - cut)).isWithin size = true :=
    axis.isWithin_strip (Nat.add_sub_of_le inside).le
  obtain ⟨firstWidth, firstHeight⟩ := Grid.sides_crop width_eq height_eq fitsFirst
  obtain ⟨secondWidth, secondHeight⟩ := Grid.sides_crop width_eq height_eq fitsSecond
  have beyond : ∀ row < size.height, ∀ col < size.width,
      ¬(row < (axis.strip size 0 cut).height ∧ col < (axis.strip size 0 cut).width) →
        (axis.strip size cut (axis.length size - cut)).y ≤ row ∧
          (axis.strip size cut (axis.length size - cut)).x ≤ col := by
    intro row hr col hc outside
    cases axis <;> simp only [strip] at outside ⊢ <;> omega
  have whole := Nat.add_sub_of_le inside
  cases axis with
  | across =>
    rw [join, Grid.beside]
    refine Grid.paste_crop width_eq height_eq ⟨rfl, rfl⟩ fitsFirst fitsSecond beyond ?_ ?_
      firstWidth rfl
    · rw [firstWidth, secondWidth]
      exact whole
    · rw [firstHeight, secondHeight]
      exact Nat.min_self _
  | down =>
    rw [join, Grid.above]
    refine Grid.paste_crop width_eq height_eq ⟨rfl, rfl⟩ fitsFirst fitsSecond beyond ?_ ?_ rfl
      firstHeight
    · rw [firstWidth, secondWidth]
      exact Nat.min_self _
    · rw [firstHeight, secondHeight]
      exact whole

end Axis

/-! ## Joined rasters -/

/-- Rasters of one layout are joined to a raster of that layout by joining their pixels. -/
inductive Raster.Joins (join : {α : Type} → Grid α → Grid α → Grid α) :
    Raster → Raster → Raster → Prop where
  | colour {order : ColourOrder} {first second : Grid (Vector UInt8 3)} :
      Joins join (.colour order first) (.colour order second) (.colour order (join first second))
  | alpha {order : AlphaOrder} {first second : Grid (Vector UInt8 4)} :
      Joins join (.alpha order first) (.alpha order second) (.alpha order (join first second))
  | gray {first second : Grid UInt8} :
      Joins join (.gray first) (.gray second) (.gray (join first second))
  | bitonal {first second : Grid Bool} :
      Joins join (.bitonal first) (.bitonal second) (.bitonal (join first second))
  | custom {kind : SampleKind} {axis : ChannelAxis}
      {first second : Grid (Vector kind.Sample axis.channels)} :
      Joins join (.custom kind axis first) (.custom kind axis second)
        (.custom kind axis (join first second))

theorem Raster.joins_rearrange {join : {α : Type} → Grid α → Grid α → Grid α}
    {move move' : {α : Type} → Grid α → Grid α} {r : Raster}
    (same : ∀ {α : Type} (g : Grid α), g.width = r.size.width → g.height = r.size.height →
      join (move g) (move' g) = g) : Joins join (r.rearrange move) (r.rearrange move') r := by
  cases r with
  | colour order pixels =>
    have joined := @Joins.colour join order (move pixels) (move' pixels)
    rwa [same pixels rfl rfl] at joined
  | alpha order pixels =>
    have joined := @Joins.alpha join order (move pixels) (move' pixels)
    rwa [same pixels rfl rfl] at joined
  | gray pixels =>
    have joined := @Joins.gray join (move pixels) (move' pixels)
    rwa [same pixels rfl rfl] at joined
  | bitonal pixels =>
    have joined := @Joins.bitonal join (move pixels) (move' pixels)
    rwa [same pixels rfl rfl] at joined
  | custom kind axis pixels =>
    have joined := @Joins.custom join kind axis (move pixels) (move' pixels)
    rwa [same pixels rfl rfl] at joined

/-! ## Crops in fractions -/

namespace Edit

variable {settings : Settings} {request : CropRequest} {reduction : Reduction} {r : Raster}
  {region : Region}

/-- What a crop leaves if its region is known: all of the raster without asking the budget, and
otherwise the region. -/
theorem crop_leaves_eq (resolved : request.region r.size.toPair reduction = .ok region)
    (covers : request.coversAll = true → region = r.size.whole) :
    (crop request reduction).leaves settings r = if region = r.size.whole then .ok r
      else (Budget.check settings "crop" region.size.toPair).map fun _ =>
        r.rearrange (Grid.crop region) := by
  rw [leaves]
  change (r.crop settings request reduction).map (Outcome.raster r) = _
  cases all : request.coversAll with
  | true =>
    rw [Raster.crop, if_pos all, if_pos (covers all)]
    rfl
  | false =>
    rw [Raster.crop, if_neg (Bool.eq_false_iff.mp all), resolved, ok_bind]
    by_cases whole : region = r.size.whole
    · rw [if_pos (Region.covers_iff.mpr whole), if_pos whole]
      rfl
    · rw [if_neg (mt Region.covers_iff.mp whole), if_neg whole, produce_eq rfl]
      cases Budget.check settings "crop" region.size.toPair <;> rfl

theorem eq_of_crop_leaves (resolved : request.region r.size.toPair reduction = .ok region)
    (covers : request.coversAll = true → region = r.size.whole) {after : Raster}
    (left : (crop request reduction).leaves settings r = .ok after) :
    after = r.rearrange (Grid.crop region) := by
  rw [crop_leaves_eq resolved covers] at left
  split at left
  · next whole =>
    rw [whole, r.rearrange_crop_whole]
    exact (Except.ok.inj left).symm
  · cases checked : Budget.check settings "crop" region.size.toPair with
    | error fault => rw [checked] at left; cases left
    | ok admitted => rw [checked] at left; exact (Except.ok.inj left).symm

theorem succeeds_crop_leaves (free : Budget.limit settings none = .ok 0)
    (resolved : request.region r.size.toPair reduction = .ok region)
    (covers : request.coversAll = true → region = r.size.whole) :
    Succeeds ((crop request reduction).leaves settings r) := by
  rw [crop_leaves_eq resolved covers, Budget.check_of_no_limit free]
  split <;> exact succeeds_ok _

end Edit

/-- Two crops whose regions are known share a raster: whatever they leave, together it is the
raster, and without a limit they leave something. -/
structure Raster.SharedBy (join : {α : Type} → Grid α → Grid α → Grid α) (settings : Settings)
    (reduction : Reduction) (first second : CropRequest) (left right : Region) (r : Raster) :
    Prop where
  first_region : first.region r.size.toPair reduction = .ok left
  second_region : second.region r.size.toPair reduction = .ok right
  joined : ∀ before after, (Edit.crop first reduction).leaves settings r = .ok before →
    (Edit.crop second reduction).leaves settings r = .ok after → Joins join before after r
  granted : Budget.limit settings none = .ok 0 →
    Succeeds ((Edit.crop first reduction).leaves settings r) ∧
      Succeeds ((Edit.crop second reduction).leaves settings r)

/-! ## Fractions -/

/-- A number from zero to one. -/
structure Real64.IsFraction (v : Real64) : Prop where
  finite : v.isFinite = true
  nonneg : 0 ≤ v.number
  le_one : v.number ≤ 1

namespace Real64

theorem isFraction_zero : IsFraction 0 := ⟨rfl, number_zero.ge, by rw [number_zero]; norm_num⟩

theorem isFraction_one : IsFraction 1 := ⟨rfl, by rw [number_one]; norm_num, number_one.le⟩

end Real64

theorem Field.withDefault_fraction {fields : Fields} {name : String} {v : Real64}
    (given : fields.get? name = some (.real v)) (fraction : v.IsFraction) :
    withDefault fields name 0 (realAtLeast 0) = .valid v := by
  have least : Binary.le (Real64.ofInt (0 : Nat)) v = true := by
    rw [le_iff (by decide) (isNaN_of_isFinite rfl) (isNaN_of_isFinite fraction.finite)]
    exact Real64.number_zero.trans_le fraction.nonneg
  simp only [withDefault, required, given, realAtLeast, restricted, real, least, ↓reduceIte]

namespace CropRequest

/-- The fields of a crop in fractions. -/
def fractions (x y width height : Real64) : Fields :=
  [("unit", .text "percent"), ("x", .real x), ("y", .real y), ("width", .real width),
    ("height", .real height)]

theorem ofFields_fractions {x y width height : Real64} (left : x.IsFraction) (top : y.IsFraction)
    (across : width.IsFraction) (down : height.IsFraction) :
    ofFields (fractions x y width height) = .ok ⟨.percent, x, y, width, height, false⟩ := by
  have inside {v : Real64} (fraction : v.IsFraction) : Binary.lt 1 v = false := by
    rw [Bool.eq_false_iff, ne_eq,
      lt_iff (by decide) (isNaN_of_isFinite rfl) (isNaN_of_isFinite fraction.finite),
      Real64.number_one, not_lt]
    exact fraction.le_one
  have none : fractionFault? ⟨.percent, x, y, width, height, false⟩ = .none := by
    simp [fractionFault?, inside left, inside top, inside across, inside down]
  simp only [ofFields]
  rw [@Field.withDefault_fraction _ "x" x rfl left, @Field.withDefault_fraction _ "y" y rfl top,
    @Field.withDefault_fraction _ "width" width rfl across,
    @Field.withDefault_fraction _ "height" height rfl down]
  refine Checked.toResult_eq_ok.mpr (Checked.andThen_eq_valid.mpr ⟨?_, none⟩)
  rfl

theorem coordinates_percent {r : CropRequest} (percent : r.unit = .percent) {size : Size}
    (narrow : size.width < 2 ^ 50) (low : size.height < 2 ^ 50) {x y width height : Int}
    (left : roundHalfAway (r.x * Real64.ofInt size.width) = .ok x)
    (top : roundHalfAway (r.y * Real64.ofInt size.height) = .ok y)
    (across : roundHalfAway (r.width * Real64.ofInt size.width) = .ok width)
    (down : roundHalfAway (r.height * Real64.ofInt size.height) = .ok height)
    (reduction : Reduction) :
    r.coordinates size.toPair reduction = .ok (x, y, width, height) := by
  have expressed {n : Nat} (small : n < 2 ^ 50) : realOfInt n = .ok (Real64.ofInt n) :=
    realOfInt_eq_ok.mpr ⟨Real64.isFinite_of_small (by omega), rfl⟩
  simp only [CropRequest.coordinates, percent, Size.toPair, expressed narrow, expressed low,
    ok_bind, left, top, across, down]
  rfl

/-- The crop of a share of a raster on one way through it. -/
def share (first extent : Real64) : Axis → CropRequest
  | .across => ⟨.percent, first, 0, extent, 1, false⟩
  | .down => ⟨.percent, 0, first, 1, extent, false⟩

section Share

variable (axis : Axis) {size : Size} (narrow : size.width < 2 ^ 50) (low : size.height < 2 ^ 50)
  (reduction : Reduction)

include narrow low

/-- A share of a raster is a strip of it, cut off at the far edge. -/
theorem region_share {first extent : Real64} {start count : Nat}
    (begins : roundHalfAway (first * Real64.ofInt (axis.length size)) = .ok (start : Int))
    (reaches : roundHalfAway (extent * Real64.ofInt (axis.length size)) = .ok (count : Int))
    (inside : start ≤ axis.length size) :
    (share first extent axis).region size.toPair reduction =
      .ok (axis.strip size start (min count (axis.length size - start))) := by
  have left := @Real64.roundHalfAway_zero_mul 0 size.width rfl narrow
  have top := @Real64.roundHalfAway_zero_mul 0 size.height rfl low
  have across := @Real64.roundHalfAway_one_mul 1 size.width rfl narrow
  have down := @Real64.roundHalfAway_one_mul 1 size.height rfl low
  cases axis with
  | across =>
    have coordinates :=
      coordinates_percent (r := share first extent .across) rfl narrow low begins top reaches down
        reduction
    refine ((region_clamped rfl coordinates).2 inside (Nat.zero_le _)).trans ?_
    simp [Size.clamp, Axis.strip, Axis.length]
  | down =>
    have coordinates :=
      coordinates_percent (r := share first extent .down) rfl narrow low left begins across reaches
        reduction
    refine ((region_clamped rfl coordinates).2 (Nat.zero_le _) inside).trans ?_
    simp [Size.clamp, Axis.strip, Axis.length]

/-- The second of two shares that add up to one begins where the first ends, and ends at the far
edge. -/
theorem exists_split {a b : Real64} (leading : a.IsFraction) (trailing : b.IsFraction)
    (whole : a.number + b.number = 1) : ∃ cut ≤ axis.length size,
      (share 0 a axis).region size.toPair reduction = .ok (axis.strip size 0 cut) ∧
      (share a b axis).region size.toPair reduction =
        .ok (axis.strip size cut (axis.length size - cut)) := by
  have short : axis.length size < 2 ^ 50 := by
    cases axis with
    | across => exact narrow
    | down => exact low
  obtain ⟨cut, rest, opening, closing, inside, reached⟩ := Real64.exists_shares leading.finite
    trailing.finite leading.nonneg trailing.nonneg whole short
  have begins := @Real64.roundHalfAway_zero_mul 0 (axis.length size) rfl short
  have first := region_share axis narrow low reduction begins opening (Nat.zero_le _)
  have second := region_share axis narrow low reduction opening closing inside
  have kept : min cut (axis.length size - 0) = cut := by omega
  have left : min rest (axis.length size - cut) = axis.length size - cut := by omega
  rw [kept] at first
  rw [left] at second
  exact ⟨cut, inside, first, second⟩

end Share

end CropRequest

/-- Crops share a raster if their regions do. -/
theorem Raster.sharedBy_of_regions {join : {α : Type} → Grid α → Grid α → Grid α}
    {settings : Settings} {reduction : Reduction} {first second : CropRequest}
    {left right : Region} {r : Raster} (narrow : r.width < 2 ^ 50) (low : r.height < 2 ^ 50)
    (firstRegion : first.region r.size.toPair reduction = .ok left)
    (secondRegion : second.region r.size.toPair reduction = .ok right)
    (same : ∀ {α : Type} (g : Grid α), g.width = r.size.width → g.height = r.size.height →
      join (g.crop left) (g.crop right) = g) :
    SharedBy join settings reduction first second left right r := by
  have all {request : CropRequest} {region : Region}
      (resolved : request.region r.size.toPair reduction = .ok region)
      (covers : request.coversAll = true) : region = r.size.whole := by
    rw [CropRequest.region_of_coversAll covers narrow low] at resolved
    exact (Except.ok.inj resolved).symm
  refine ⟨firstRegion, secondRegion, ?_, ?_⟩
  · intro before after leftFirst leftSecond
    rw [Edit.eq_of_crop_leaves firstRegion (all firstRegion) leftFirst,
      Edit.eq_of_crop_leaves secondRegion (all secondRegion) leftSecond]
    exact joins_rearrange same
  · intro free
    exact ⟨Edit.succeeds_crop_leaves free firstRegion (all firstRegion),
      Edit.succeeds_crop_leaves free secondRegion (all secondRegion)⟩

/-- Fractions that add up to one share a raster on either way through it. -/
theorem Raster.sharedBy_shares (axis : Axis) {a b : Real64} (leading : a.IsFraction)
    (trailing : b.IsFraction) (whole : a.number + b.number = 1) {r : Raster}
    (narrow : r.width < 2 ^ 50) (low : r.height < 2 ^ 50) (reduction : Reduction)
    (settings : Settings) :
    ∃ cut ≤ axis.length r.size,
      SharedBy (fun first second => axis.join first second) settings reduction
        (CropRequest.share 0 a axis) (CropRequest.share a b axis) (axis.strip r.size 0 cut)
        (axis.strip r.size cut (axis.length r.size - cut)) r := by
  obtain ⟨cut, inside, first, second⟩ :=
    CropRequest.exists_split axis narrow low reduction leading trailing whole
  exact ⟨cut, inside, sharedBy_of_regions narrow low first second fun _ width_eq height_eq =>
    axis.join_strips width_eq height_eq inside⟩

/-- Fractions that add up to one split a raster without a gap and without an overlap: the crops are
accepted requests, the first begins at the origin, the second where the first ends, and it ends at
the far edge. What both leave, side by side or one above the other, is the raster. -/
theorem Raster.fractions_split_without_gap {a b : Real64} (leading : a.IsFraction)
    (trailing : b.IsFraction) (whole : a.number + b.number = 1) {r : Raster}
    (narrow : r.width < 2 ^ 50) (low : r.height < 2 ^ 50) (reduction : Reduction)
    (settings : Settings) :
    (∃ first second cut, cut ≤ r.width ∧
      CropRequest.ofFields (CropRequest.fractions 0 0 a 1) = .ok first ∧
      CropRequest.ofFields (CropRequest.fractions a 0 b 1) = .ok second ∧
      SharedBy Grid.beside settings reduction first second ⟨0, 0, cut, r.height⟩
        ⟨cut, 0, r.width - cut, r.height⟩ r) ∧
    (∃ first second cut, cut ≤ r.height ∧
      CropRequest.ofFields (CropRequest.fractions 0 0 1 a) = .ok first ∧
      CropRequest.ofFields (CropRequest.fractions 0 a 1 b) = .ok second ∧
      SharedBy Grid.above settings reduction first second ⟨0, 0, r.width, cut⟩
        ⟨0, cut, r.width, r.height - cut⟩ r) := by
  have zero := Real64.isFraction_zero
  have one := Real64.isFraction_one
  constructor
  · obtain ⟨cut, inside, shared⟩ :=
      sharedBy_shares .across leading trailing whole narrow low reduction settings
    exact ⟨_, _, cut, inside, CropRequest.ofFields_fractions zero zero leading one,
      CropRequest.ofFields_fractions leading zero trailing one, shared⟩
  · obtain ⟨cut, inside, shared⟩ :=
      sharedBy_shares .down leading trailing whole narrow low reduction settings
    exact ⟨_, _, cut, inside, CropRequest.ofFields_fractions zero zero one leading,
      CropRequest.ofFields_fractions zero leading one trailing, shared⟩

theorem Raster.fractions_split_without_gap_in_halves :
    let r : Raster := .gray ⟨3, 1, #[7, 8, 9], rfl⟩
    Real64.half.IsFraction ∧ Real64.half.number + Real64.half.number = 1 ∧
      (∃ first second, CropRequest.ofFields (CropRequest.fractions 0 0 Real64.half 1) = .ok first ∧
        CropRequest.ofFields (CropRequest.fractions Real64.half 0 Real64.half 1) = .ok second ∧
        SharedBy Grid.beside .default .none first second ⟨0, 0, 2, 1⟩ ⟨2, 0, 1, 1⟩ r) := by
  intro r
  have fraction : Real64.half.IsFraction :=
    ⟨rfl, by rw [Real64.number_half]; norm_num, by rw [Real64.number_half]; norm_num⟩
  have whole : Real64.half.number + Real64.half.number = 1 := by
    rw [Real64.number_half]
    norm_num
  obtain ⟨⟨first, second, cut, -, opening, closing, shared⟩, -⟩ :=
    fractions_split_without_gap fraction fraction whole (show r.width < 2 ^ 50 by decide)
      (show r.height < 2 ^ 50 by decide) .none .default
  obtain rfl : cut = 2 := by
    obtain rfl := Except.ok.inj opening
    have width : ((⟨.percent, 0, 0, Real64.half, 1, false⟩ : CropRequest).region r.size.toPair
        .none).toOption.map Region.width = some 2 := by
      decide +kernel
    rw [shared.first_region] at width
    exact Option.some.inj width
  exact ⟨fraction, whole, first, second, opening, closing, shared⟩

end RasterEdit
