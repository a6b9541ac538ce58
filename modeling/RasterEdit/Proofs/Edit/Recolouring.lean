import RasterEdit.Proofs.Edit.Plan
import RasterEdit.Proofs.Raster.Buffer

/-!
# Recolouring moved pixels

Crops and flips fail or move cells by the size of the raster alone, and the edits that change
colours do so cell by cell and keep the size. Either order of the two therefore fails alike or ends
in the same raster.
-/

set_option autoImplicit false

namespace RasterEdit

/-! ## Moved pictures -/

/-- Applies a movement of cells to the pixels of a picture. -/
def Picture.rearrange (move : {α : Type} → Grid α → Grid α) : Picture → Picture
  | bitonal pixels => bitonal (move pixels)
  | gray pixels => gray (move pixels)
  | rgb pixels => rgb (move pixels)
  | rgba pixels => rgba (move pixels)

section Moved

variable {move : {α : Type} → Grid α → Grid α}

theorem Raster.toPicture_rearrange (natural : Grid.Natural move) (operation : String)
    (r : Raster) :
    (r.rearrange move).toPicture operation =
      (r.toPicture operation).map (Picture.rearrange move) := by
  cases r with
  | colour order pixels =>
    exact congrArg (fun g => Except.ok (Picture.rgb g)) (natural _ pixels).symm
  | alpha order pixels =>
    exact congrArg (fun g => Except.ok (Picture.rgba g)) (natural _ pixels).symm
  | _ => rfl

theorem Picture.grayOverBlack_rearrange (natural : Grid.Natural move) (p : Picture) :
    (p.rearrange move).grayOverBlack = move p.grayOverBlack := by
  cases p with
  | gray pixels => rfl
  | bitonal pixels => exact (natural _ pixels).symm
  | rgb pixels => exact (natural _ pixels).symm
  | rgba pixels => exact (natural _ pixels).symm

end Moved

/-! ## Edits without a limit -/

theorem Budget.check_of_no_limit {settings : Settings} (free : Budget.limit settings none = .ok 0)
    (operation : String) (size : Int × Int) : Budget.check settings operation size = .ok () := by
  simp only [Budget.check, free, Result.ok_bind]
  rfl

/-! ### Removed alpha -/

/-- A stored pixel composited over black, in the colour order that is left. -/
def AlphaOrder.flattened (order : AlphaOrder) (p : Vector UInt8 4) : Vector UInt8 3 :=
  reorder order.withoutAlpha.ofCanonical (Colour.flatten (reorder order.toCanonical p))

theorem Raster.removeAlpha_alpha {settings : Settings} (free : Budget.limit settings none = .ok 0)
    (order : AlphaOrder) (pixels : Grid (Vector UInt8 4)) :
    ∃ entry, (alpha order pixels).removeAlpha settings =
      .ok (.produced (colour order.withoutAlpha (pixels.map order.flattened)) entry) := by
  simp only [Raster.removeAlpha, produce, Budget.check_of_no_limit free, Result.ok_bind]
  exact ⟨_, rfl⟩

/-! ### Normalized pixels -/

namespace Raster

section Custom

variable {kind : SampleKind} {axis : ChannelAxis}

/-- The colours that a custom raster is normalized to. -/
def normalized (pixels : Grid (Vector kind.Sample axis.channels)) : Grid Rgb :=
  pixels.map fun p => Colour.ofChannels (p.map (Depth.byte kind))

theorem get_normalized (pixels : Grid (Vector kind.Sample axis.channels)) {row col : Nat}
    (hr : row < pixels.height) (hc : col < pixels.width) : (normalized pixels).get row col hr hc =
      Colour.ofChannels ((pixels.get row col hr hc).map (Depth.byte kind)) :=
  Grid.get_map ..

theorem normalize_custom {settings : Settings} (free : Budget.limit settings none = .ok 0)
    (pixels : Grid (Vector kind.Sample axis.channels)) :
    ∃ entry, (custom kind axis pixels).normalize settings =
      .ok (.produced (colour .rgb (normalized pixels)) entry) := by
  simp only [normalize, produce, Budget.check_of_no_limit free, Result.ok_bind]
  exact ⟨_, rfl⟩

end Custom

end Raster

/-! ### What is left -/

namespace Edit

/-- The raster that an edit leaves: the one it makes, or the one it was given. -/
def leaves (settings : Settings) (e : Edit) (r : Raster) : Result Raster :=
  (e.apply settings r).map (Outcome.raster r)

variable {settings : Settings}

theorem leaves_eq (free : Budget.limit settings none = .ok 0) (e : Edit) (r : Raster) :
    e.leaves settings r = (e.plan r.layout r.size >>= fun plan =>
      match plan with
      | none => .ok r
      | some p => e.checkSides p.size >>= fun _ => e.make settings p.size r) := by
  have follows := e.apply_follows settings r
  cases planned : e.plan r.layout r.size with
  | error fault =>
    rw [planned] at follows
    rw [leaves, show e.apply settings r = _ from follows]
    rfl
  | ok plan =>
    rw [planned] at follows
    cases plan with
    | none =>
      obtain ⟨note, applied, -⟩ := follows
      rw [leaves, applied]
      rfl
    | some p =>
      obtain ⟨after, text, made, -, -, applied⟩ := follows
      simp only [leaves, applied, permit, Budget.check_of_no_limit free, Result.ok_bind, made]
      cases e.checkSides p.size <;> rfl

/-! ## Movements -/

/-- An edit that treats all rasters of a size alike: it fails with all of them, or moves the cells
of all of them in one way. -/
inductive Moves (settings : Settings) (size : Size) (e : Edit) : Prop where
  | fails (fault : Failure)
      (refused : ∀ r : Raster, r.size = size → e.leaves settings r = .error fault)
  | moves (move : {α : Type} → Grid α → Grid α) (natural : Grid.Natural move)
      (moved : ∀ r : Raster, r.size = size → e.leaves settings r = .ok (r.rearrange move))

theorem moves_of_idle {size : Size} {e : Edit}
    (idle : ∀ r : Raster, r.size = size → e.leaves settings r = .ok r) :
    e.Moves settings size := by
  refine .moves (fun g => g) (fun _ _ => rfl) ?_
  intro r same
  rw [idle r same]
  cases r <;> rfl

theorem crop_moves (free : Budget.limit settings none = .ok 0) (size : Size)
    (request : CropRequest) (reduction : Reduction) :
    (crop request reduction).Moves settings size := by
  cases covers : request.coversAll with
  | true =>
    apply moves_of_idle
    intro r same
    rw [leaves_eq free, plan, covers]
    rfl
  | false =>
    cases resolved : request.region size.toPair reduction with
    | error fault =>
      apply Moves.fails fault
      intro r same
      rw [leaves_eq free, plan, covers, same, resolved]
      rfl
    | ok region =>
      cases whole : region.covers size with
      | true =>
        apply moves_of_idle
        intro r same
        rw [leaves_eq free, plan, covers, same, resolved, Result.ok_bind, whole]
        rfl
      | false =>
        refine .moves (Grid.crop region) (Grid.natural_crop region) ?_
        intro r same
        rw [leaves_eq free, plan, covers, same, resolved, Result.ok_bind, whole]
        simp only [make, same, resolved]
        rfl

theorem flip_leaves (free : Budget.limit settings none = .ok 0) (direction : Flip) (r : Raster) :
    (flip direction).leaves settings r = .ok (r.rearrange (Grid.flip direction)) := by
  rw [leaves_eq free]
  rfl

/-! ## Recolourings -/

/-- The edits that change colours, on the layouts that they can read. -/
inductive Recolours (layout : Layout) : Edit → Prop where
  | gray (standard : layout.isStandard = true) : Recolours layout (.tone .gray)
  | bitonal (standard : layout.isStandard = true) : Recolours layout (.tone .bitonal)
  | removeAlpha (standard : layout.isStandard = true) : Recolours layout .removeAlpha
  | normalize : Recolours layout .normalize

/-- A recolouring has a result, which moves as the raster moves. -/
structure Recoloured (settings : Settings) (e : Edit) (r after : Raster) : Prop where
  left : e.leaves settings r = .ok after
  size_eq : after.size = r.size
  standard : after.layout.isStandard = true
  moved : ∀ {move : {α : Type} → Grid α → Grid α}, Grid.Natural move →
    e.leaves settings (r.rearrange move) = .ok (after.rearrange move)

/-- What leaves every raster of a layout as it is recolours it. -/
theorem recoloured_of_idle (free : Budget.limit settings none = .ok 0) {e : Edit} {r : Raster}
    (standard : r.layout.isStandard = true) (idle : ∀ size, e.plan r.layout size = .ok none) :
    Recoloured settings e r r where
  left := by
    rw [leaves_eq free, idle]
    rfl
  size_eq := rfl
  standard := standard
  moved := by
    intro move natural
    rw [leaves_eq free, Raster.layout_rearrange, idle]
    rfl

/-- The raster that reduced tones make of gray values. -/
def toned (settings : Settings) (wanted : Tone) (luma : Grid UInt8) : Raster :=
  match wanted with
  | .bitonal => .bitonal (luma.map fun v => settings.bitonalThreshold ≤ v.toNat)
  | _ => .gray luma

theorem toned_rearrange {move : {α : Type} → Grid α → Grid α} (natural : Grid.Natural move)
    (wanted : Tone) (luma : Grid UInt8) :
    toned settings wanted (move luma) = (toned settings wanted luma).rearrange move := by
  cases wanted with
  | bitonal => exact congrArg Raster.bitonal (natural _ luma).symm
  | _ => rfl

theorem tone_leaves (free : Budget.limit settings none = .ok 0) {wanted : Tone}
    (reduced : wanted ≠ .unchanged) {r : Raster} (standard : r.layout.isStandard = true) :
    (tone wanted).leaves settings r =
      (r.toPicture "raster_to_image").map fun p => toned settings wanted p.grayOverBlack := by
  rw [leaves_eq free]
  simp only [plan, reduced, standard, Bool.not_true, Bool.false_eq_true, ↓reduceIte]
  cases wanted <;> cases r <;> rfl

/-- The gray values of a raster do not depend on the settings. -/
theorem exists_toned {r : Raster} (standard : r.layout.isStandard = true) :
    ∃ p : Picture, p.size = r.size ∧ (∀ operation, r.toPicture operation = .ok p) ∧
      ∀ {settings : Settings} {wanted : Tone}, Budget.limit settings none = .ok 0 →
        wanted ≠ .unchanged →
        (tone wanted).leaves settings r = .ok (toned settings wanted p.grayOverBlack) := by
  obtain ⟨p, size_eq, shown⟩ := Raster.toPicture_of_standard standard
  refine ⟨p, size_eq, shown, ?_⟩
  intro settings wanted free reduced
  rw [tone_leaves free reduced standard, shown]
  rfl

theorem tone_recoloured (free : Budget.limit settings none = .ok 0) {wanted : Tone}
    (reduced : wanted ≠ .unchanged) {r : Raster} (standard : r.layout.isStandard = true) :
    ∃ after, Recoloured settings (.tone wanted) r after := by
  obtain ⟨picture, size_eq, pictured, left⟩ := exists_toned standard
  refine ⟨toned settings wanted picture.grayOverBlack, left free reduced, ?_, ?_, ?_⟩
  · rw [← size_eq]
    cases wanted <;> cases picture <;> rfl
  · cases wanted <;> rfl
  · intro move natural
    have standard' : (r.rearrange move).layout.isStandard = true := by
      rw [Raster.layout_rearrange, standard]
    rw [tone_leaves free reduced standard', Raster.toPicture_rearrange natural, pictured]
    refine congrArg Except.ok ?_
    rw [← toned_rearrange natural, ← picture.grayOverBlack_rearrange natural]

theorem removeAlpha_leaves (free : Budget.limit settings none = .ok 0) (order : AlphaOrder)
    (pixels : Grid (Vector UInt8 4)) : removeAlpha.leaves settings (.alpha order pixels) =
      .ok (.colour order.withoutAlpha (pixels.map order.flattened)) := by
  obtain ⟨entry, removed⟩ := Raster.removeAlpha_alpha free order pixels
  exact congrArg (Except.map (Outcome.raster _)) removed

theorem removeAlpha_recoloured (free : Budget.limit settings none = .ok 0) {r : Raster}
    (standard : r.layout.isStandard = true) :
    ∃ after, Recoloured settings .removeAlpha r after := by
  cases r with
  | custom kind axis pixels => cases standard
  | alpha order pixels =>
    refine ⟨.colour order.withoutAlpha (pixels.map order.flattened),
      removeAlpha_leaves free order pixels, rfl, rfl, ?_⟩
    intro move natural
    refine (removeAlpha_leaves free order (move pixels)).trans ?_
    exact congrArg (fun g => Except.ok (Raster.colour order.withoutAlpha g)) (natural _ _).symm
  | _ => exact ⟨_, recoloured_of_idle free standard fun _ => rfl⟩

theorem normalize_leaves (free : Budget.limit settings none = .ok 0) {kind : SampleKind}
    {axis : ChannelAxis} (pixels : Grid (Vector kind.Sample axis.channels)) :
    normalize.leaves settings (.custom kind axis pixels) =
      .ok (.colour .rgb (Raster.normalized pixels)) := by
  obtain ⟨entry, made⟩ := Raster.normalize_custom free pixels
  exact congrArg (Except.map (Outcome.raster _)) made

theorem normalize_recoloured (free : Budget.limit settings none = .ok 0) (r : Raster) :
    ∃ after, Recoloured settings .normalize r after := by
  cases r with
  | custom kind axis pixels =>
    refine ⟨.colour .rgb (Raster.normalized pixels), normalize_leaves free pixels, rfl, rfl, ?_⟩
    intro move natural
    refine (normalize_leaves free (move pixels)).trans ?_
    exact congrArg (fun g => Except.ok (Raster.colour .rgb g)) (natural _ _).symm
  | _ => exact ⟨_, recoloured_of_idle free rfl fun _ => rfl⟩

theorem Recolours.recoloured (free : Budget.limit settings none = .ok 0) {e : Edit} {r : Raster}
    (recolours : Recolours r.layout e) : ∃ after, Recoloured settings e r after := by
  cases recolours with
  | gray standard => exact tone_recoloured free (by decide) standard
  | bitonal standard => exact tone_recoloured free (by decide) standard
  | removeAlpha standard => exact removeAlpha_recoloured free standard
  | normalize => exact normalize_recoloured free r

/-! ## Either order -/

/-- Moving before recolouring and after it fail alike, or both end in the moved result. -/
theorem Moves.commutes {size : Size} {movement colouring : Edit} {r after : Raster}
    (moves : movement.Moves settings size) (same : r.size = size)
    (recoloured : Recoloured settings colouring r after) :
    Result.Rel (fun a b => a.sameNumbers b = true)
      (movement.leaves settings r >>= colouring.leaves settings)
      (colouring.leaves settings r >>= movement.leaves settings) := by
  have sameAfter : after.size = size := recoloured.size_eq.trans same
  rw [recoloured.left, Result.ok_bind]
  cases moves with
  | fails fault refused =>
    rw [refused r same, refused after sameAfter]
    exact .error fault
  | moves move natural moved =>
    rw [moved r same, moved after sameAfter, Result.ok_bind, recoloured.moved natural]
    refine .ok (Raster.sameNumbers_self ?_)
    rw [Raster.layout_rearrange]
    exact recoloured.standard

/-- Where no limit is in force, recolouring a raster before or after a crop fails alike or ends in
the same pixels, and before or after a flip it does not fail and ends in the same pixels. -/
theorem recolouring_commutes_with_movement (free : Budget.limit settings none = .ok 0) {r : Raster}
    {colouring : Edit} (recolours : Recolours r.layout colouring) :
    (∀ (request : CropRequest) (reduction : Reduction),
      Result.Rel (fun a b => a.sameNumbers b = true)
        ((crop request reduction).leaves settings r >>= colouring.leaves settings)
        (colouring.leaves settings r >>= (crop request reduction).leaves settings)) ∧
    ∀ direction : Flip, ∃ a b : Raster,
      ((flip direction).leaves settings r >>= colouring.leaves settings) = .ok a ∧
      (colouring.leaves settings r >>= (flip direction).leaves settings) = .ok b ∧
      a.sameNumbers b = true := by
  obtain ⟨after, recoloured⟩ := recolours.recoloured free
  constructor
  · intro request reduction
    exact (crop_moves free r.size request reduction).commutes rfl recoloured
  · intro direction
    refine ⟨after.rearrange (Grid.flip direction), after.rearrange (Grid.flip direction), ?_, ?_,
      ?_⟩
    · rw [flip_leaves free, Result.ok_bind, recoloured.moved (Grid.natural_flip direction)]
    · rw [recoloured.left, Result.ok_bind, flip_leaves free]
    · apply Raster.sameNumbers_self
      rw [Raster.layout_rearrange]
      exact recoloured.standard

theorem recolouring_commutes_with_empty_crop :
    Result.Rel (fun a b => a.sameNumbers b = true)
      ((crop ⟨.pixels, 1, 0, 0, 1, false⟩ .none).leaves .default
          (.alpha .argb ⟨2, 1, #[#v[128, 1, 2, 3], #v[0, 9, 9, 9]], rfl⟩) >>=
        removeAlpha.leaves .default)
      (removeAlpha.leaves .default (.alpha .argb ⟨2, 1, #[#v[128, 1, 2, 3], #v[0, 9, 9, 9]], rfl⟩)
        >>= (crop ⟨.pixels, 1, 0, 0, 1, false⟩ .none).leaves .default) :=
  (recolouring_commutes_with_movement rfl (.removeAlpha rfl)).1 _ _

end Edit

end RasterEdit
