import RasterEdit.Proofs.Edit.Recolouring
import RasterEdit.Proofs.Image.Turned
import RasterEdit.Proofs.Raster.Channels
import RasterEdit.Proofs.Raster.Twin

/-!
# Turned rasters without alpha

Turning a raster that has no alpha leaves pixels that are either blank or fully opaque, whatever the
angle and the size. If the raster shows a single colour, the opaque pixels show it, too.
-/

set_option autoImplicit false

namespace RasterEdit

/-! ## Colours without alpha -/

theorem Colour.channel_solid {c : Channel} (coloured : c ≠ .alpha) (p : Rgb) :
    channel (solid p) c = channel p c := by
  cases c with
  | alpha => exact absurd rfl coloured
  | _ => rfl

theorem Colour.channel_ofGray {c : Channel} (coloured : c ≠ .alpha) (v : UInt8) :
    channel (ofGray v) c = v := by
  cases c with
  | alpha => exact absurd rfl coloured
  | _ => rfl

namespace Raster

/-- The byte that a raster without alpha shows in a colour channel. A gray value stands for all
three, and white for 255. -/
def shade (r : Raster) (row col : Nat) (c : Channel) : Nat :=
  match r.layout with
  | .gray8 => r.sampleAt row col 0
  | .bitonal => 255 * r.sampleAt row col 0
  | _ => r.channelAt row col c

/-- A picture with full alpha that shows the shades of a raster. -/
structure ShownBy (r : Raster) (g : Grid Rgba) : Prop where
  width_eq : g.width = r.width
  height_eq : g.height = r.height
  full : Turn.IsFull g
  shade_eq : ∀ {row col : Nat} (hr : row < g.height) (hc : col < g.width) {c : Channel},
    c ≠ .alpha → (Colour.channel (g.get row col hr hc) c).toNat = r.shade row col c

variable {r : Raster}

theorem ShownBy.of_map {α : Type} {pixels : Grid α} (tint : α → Rgb)
    (size_eq : r.size = ⟨pixels.width, pixels.height⟩)
    (shade_eq : ∀ {row col : Nat} (hr : row < pixels.height) (hc : col < pixels.width)
      {c : Channel}, c ≠ .alpha →
        (Colour.channel (tint (pixels.get row col hr hc)) c).toNat = r.shade row col c) :
    r.ShownBy (pixels.map fun p => Colour.solid (tint p)) where
  width_eq := congrArg Size.width size_eq.symm
  height_eq := congrArg Size.height size_eq.symm
  full row col hr hc := congrArg Colour.alpha (Grid.get_map ..)
  shade_eq := by
    intro row col hr hc c coloured
    have cell : (pixels.map fun p => Colour.solid (tint p)).get row col hr hc =
        Colour.solid (tint (pixels.get row col hr hc)) := Grid.get_map ..
    rw [cell, Colour.channel_solid coloured]
    exact shade_eq hr hc coloured

theorem shownBy_toRgba (bare : r.layout.hasAlpha = false) {operation : String} {picture : Picture}
    (taken : r.toPicture operation = .ok picture) : r.ShownBy picture.toRgba := by
  cases r with
  | custom kind axis pixels => cases taken
  | alpha order pixels => cases bare
  | colour order pixels =>
    obtain rfl := Except.ok.inj taken
    refine .of_map id rfl ?_
    intro row col (hr : row < pixels.height) (hc : col < pixels.width) c coloured
    have cell : (pixels.map (reorder order.toCanonical)).get row col hr hc =
        reorder order.toCanonical (pixels.get row col hr hc) := Grid.get_map ..
    exact (congrArg (fun p => (Colour.channel p c).toNat) cell).trans
      (channelAt_colour coloured hr hc).symm
  | gray pixels =>
    obtain rfl := Except.ok.inj taken
    refine .of_map Colour.ofGray rfl ?_
    intro row col hr hc c coloured
    rw [Colour.channel_ofGray coloured]
    exact (sampleAt_gray hr hc).symm
  | bitonal pixels =>
    obtain rfl := Except.ok.inj taken
    refine .of_map (fun white => Colour.ofGray (Colour.ofTruth white)) rfl ?_
    intro row col hr hc c coloured
    have truth (white : Bool) : (Colour.ofTruth white).toNat = 255 * white.toNat := by
      cases white <;> rfl
    rw [Colour.channel_ofGray coloured, truth]
    exact congrArg (255 * ·) (sampleAt_bitonal hr hc).symm

/-! ## Turned rasters -/

/-- A raster of blank and of opaque pixels. If a raster has one shade for every channel, the opaque
pixels show it. -/
structure Turned (r after : Raster) : Prop where
  layout_eq : after.layout = .rgba
  blank_or_full : ∀ {row col : Nat}, row < after.height → col < after.width →
    (∀ c, after.channelAt row col c = 0) ∨ after.channelAt row col .alpha = 255
  shade_eq : ∀ shade : Channel → Nat,
    (∀ {row col : Nat}, row < r.height → col < r.width → ∀ {c}, c ≠ .alpha →
      r.shade row col c = shade c) →
    ∀ {row col : Nat}, row < after.height → col < after.width →
      after.channelAt row col .alpha = 255 → ∀ {c}, c ≠ .alpha →
        after.channelAt row col c = shade c

theorem channelAt_rgba {pixels : Grid Rgba} {row col : Nat} (hr : row < pixels.height)
    (hc : col < pixels.width) (c : Channel) : (alpha .rgba pixels).channelAt row col c =
      (Colour.channel (pixels.get row col hr hc) c).toNat := by
  rw [channelAt_alpha hr hc]
  exact congrArg (fun p => (Colour.channel p c).toNat) (reorder_rgba _)

theorem channel_transparent (c : Channel) : (Colour.channel Turn.transparent c).toNat = 0 := by
  cases c <;> rfl

theorem turned_blank (r : Raster) (width height : Nat) :
    r.Turned (.alpha .rgba (.replicate width height Turn.transparent)) := by
  have blank {row col : Nat} (hr : row < height) (hc : col < width) (c : Channel) :
      (alpha .rgba (.replicate width height Turn.transparent)).channelAt row col c = 0 := by
    have cell : (Grid.replicate width height Turn.transparent).get row col hr hc =
        Turn.transparent := Array.getElem_replicate ..
    rw [channelAt_rgba hr hc, cell, channel_transparent]
  refine ⟨rfl, fun hr hc => .inl (blank hr hc), ?_⟩
  intro shade same row col hr hc full
  rw [blank hr hc] at full
  cases full

/-- A pixel that shows a part of the picture has full alpha and what all shades agree on. -/
theorem ShownBy.of_inside {g : Grid Rgba} (shown : r.ShownBy g) (wide : 0 < r.width)
    (high : 0 < r.height) {p : Rgba}
    (kept : ∀ (k : Fin 4) (v : UInt8), (∀ row col hr hc, (g.get row col hr hc).get k = v) →
      p.get k = v) :
    (Colour.channel p .alpha).toNat = 255 ∧ ∀ shade : Channel → Nat,
      (∀ {row col : Nat}, row < r.height → col < r.width → ∀ {c}, c ≠ .alpha →
        r.shade row col c = shade c) →
      ∀ {c}, c ≠ .alpha → (Colour.channel p c).toNat = shade c := by
  constructor
  · exact congrArg UInt8.toNat (kept 3 255 shown.full)
  · intro shade same c coloured
    have inside (q : Rgba) : Colour.channel q c = q.get ⟨c.place, c.place_lt⟩ :=
      Colour.channel_of_lt c.place_lt q
    have agreed {row col : Nat} (hr : row < g.height) (hc : col < g.width) :
        (Colour.channel (g.get row col hr hc) c).toNat = shade c :=
      (shown.shade_eq hr hc coloured).trans
        (same (shown.height_eq ▸ hr) (shown.width_eq ▸ hc) coloured)
    have origin := agreed (shown.height_eq ▸ high) (shown.width_eq ▸ wide)
    rw [← origin, inside p, kept _ _ ?_]
    intro row col hr hc
    rw [← inside]
    exact UInt8.toNat_inj.mp ((agreed hr hc).trans origin.symm)

theorem turned_renderStraight {g : Grid Rgba} (shown : r.ShownBy g) (wide : 0 < r.width)
    (high : 0 < r.height) (s : Turn.Sampling) (width height : Nat) :
    r.Turned (.alpha .rgba (Turn.renderStraight s width height g)) := by
  have pixel {row col : Nat} (hr : row < height) (hc : col < width) :=
    Turn.shows_renderStraight shown.full s hr hc
  refine ⟨rfl, ?_, ?_⟩
  · intro row col hr hc
    simp only [channelAt_rgba hr hc]
    cases pixel hr hc with
    | outside nothing =>
      left
      intro c
      rw [nothing, channel_transparent]
    | inside kept => exact .inr (shown.of_inside wide high kept).1
  · intro shade same row col hr hc full c coloured
    rw [channelAt_rgba hr hc] at full ⊢
    cases pixel hr hc with
    | outside nothing =>
      rw [nothing, channel_transparent] at full
      cases full
    | inside kept => exact (shown.of_inside wide high kept).2 shade same coloured

end Raster

namespace Edit

variable {settings : Settings} {request : RotateRequest} {r after : Raster} {size : Size}

theorem turned_of_make (bare : r.layout.hasAlpha = false)
    (made : (rotate request).make settings size r = .ok after) : r.Turned after := by
  simp only [make] at made
  split at made
  · rw [Raster.blank_rgba] at made
    cases made
    exact r.turned_blank ..
  · next nonempty =>
    obtain ⟨sampling, -, made⟩ := Result.bind_eq_ok.mp made
    obtain ⟨picture, taken, made⟩ := Result.bind_eq_ok.mp made
    cases made
    have sides : 0 < r.width ∧ 0 < r.height := by
      simp only [Raster.isEmpty, Size.isEmpty, Bool.or_eq_true, beq_iff_eq, not_or] at nonempty
      exact ⟨Nat.pos_of_ne_zero nonempty.1.1, Nat.pos_of_ne_zero nonempty.1.2⟩
    exact Raster.turned_renderStraight (Raster.shownBy_toRgba bare taken) sides.1 sides.2 ..

theorem rotate_succeeds (standard : r.layout.isStandard = true)
    (turned : request.isWholeTurn = false) (free : Budget.limit settings none = .ok 0)
    {canvas : Int × Int} (resolved : Rotation.canvasSize (.whole r.size.width)
      (.whole r.size.height) (.real request.degrees) = .ok canvas) :
    ∃ after entry, r.rotate settings request = .ok (.produced after entry) ∧
      (rotate request).make settings ⟨canvas.1.toNat, canvas.2.toNat⟩ r = .ok after := by
  have follows := apply_follows settings r (.rotate request)
  rw [plan_of_planned (.rotate turned standard resolved)] at follows
  obtain ⟨after, text, made, -, -, applied⟩ := follows
  rw [permit, Budget.check_of_no_limit free] at applied
  exact ⟨after, _, applied, made⟩

end Edit

/-- Every turn of a raster without alpha leaves blank and opaque pixels, which show the colour of
the raster if it has a single one. Without a limit, only sizes far beyond any memory are refused. -/
theorem turns_of_solid_rasters {r : Raster} (standard : r.layout.isStandard = true)
    (bare : r.layout.hasAlpha = false) {request : RotateRequest}
    (finite : request.degrees.isFinite = true) (turned : request.isWholeTurn = false)
    {settings : Settings} (free : Budget.limit settings none = .ok 0) :
    (r.width ≤ 2 ^ 1000 → r.height ≤ 2 ^ 1000 →
      ∃ after entry, r.rotate settings request = .ok (.produced after entry)) ∧
    ∀ outcome, r.rotate settings request = .ok outcome →
      ∃ after entry, outcome = .produced after entry ∧ r.Turned after := by
  constructor
  · intro narrow low
    obtain ⟨canvas, resolved⟩ := Rotation.canvasSize_succeeds (by decide) narrow low finite
    obtain ⟨after, entry, rotated, -⟩ := Edit.rotate_succeeds standard turned free resolved
    exact ⟨after, entry, rotated⟩
  · intro outcome rotated
    cases resolved : Rotation.canvasSize (.whole r.size.width) (.whole r.size.height)
        (.real request.degrees) with
    | error fault =>
      simp only [Raster.rotate, turned, standard, Size.toPair, resolved] at rotated
      cases rotated
    | ok canvas =>
      obtain ⟨after, entry, same, made⟩ := Edit.rotate_succeeds standard turned free resolved
      cases rotated.symm.trans same
      exact ⟨after, entry, rfl, Edit.turned_of_make bare made⟩

theorem turns_of_solid_rasters_blue_first :
    ∃ after entry, (Raster.colour .bgr (.replicate 3 2 #v[30, 20, 10])).rotate .default
        ⟨Real64.ofInt 30⟩ = .ok (.produced after entry) ∧ after.layout = .rgba ∧
      ∀ {row col : Nat}, row < after.height → col < after.width →
        after.channelAt row col .alpha = 255 → after.channelAt row col .red = 10 := by
  obtain ⟨total, turns⟩ := turns_of_solid_rasters
    (r := .colour .bgr (.replicate 3 2 #v[30, 20, 10])) rfl rfl
    (show (Real64.ofInt 30).isFinite = true by decide)
    (show RotateRequest.isWholeTurn ⟨Real64.ofInt 30⟩ = false by decide +kernel)
    (show Budget.limit .default none = .ok 0 from rfl)
  obtain ⟨after, entry, rotated⟩ := total (by decide +kernel) (by decide +kernel)
  obtain ⟨_, _, same, turned⟩ := turns _ rotated
  cases same
  refine ⟨after, entry, rotated, turned.layout_eq, ?_⟩
  intro row col hr hc full
  have shades : ∀ row < 2, ∀ col < 3,
      (Raster.colour .bgr (.replicate 3 2 #v[30, 20, 10])).shade row col .red = 10 ∧
      (Raster.colour .bgr (.replicate 3 2 #v[30, 20, 10])).shade row col .green = 20 ∧
      (Raster.colour .bgr (.replicate 3 2 #v[30, 20, 10])).shade row col .blue = 30 := by
    decide +kernel
  refine turned.shade_eq (fun c => match c with | .red => 10 | .green => 20 | _ => 30) ?_ hr hc
    full nofun
  intro row col hr hc c coloured
  obtain ⟨red, green, blue⟩ := shades row hr col hc
  cases c with
  | red => exact red
  | green => exact green
  | blue => exact blue
  | alpha => exact absurd rfl coloured

end RasterEdit
