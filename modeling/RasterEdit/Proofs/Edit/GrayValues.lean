import RasterEdit.Proofs.Edit.Recolouring
import RasterEdit.Proofs.Image.Colour
import RasterEdit.Proofs.Raster.Channels

/-!
# Gray values

The gray value of a pixel is the luma of the colour that it shows over black, whatever order its
channels are stored in. It never falls when the colour gets brighter, and gray pixels keep their
value.
-/

set_option autoImplicit false

namespace RasterEdit

namespace Raster

/-- A colour channel as it shows over black. -/
def seenAt (r : Raster) (row col : Nat) (c : Channel) : Int :=
  if r.layout.hasAlpha then
    round (r.channelAt row col c * r.channelAt row col .alpha / 255 : ℚ)
  else r.channelAt row col c

/-- What the gray value of a pixel is, by the layout: the luma of a colour to within half a unit and
the error of its weights, the value of a gray pixel, or one of the extremes. -/
inductive GrayAt (r : Raster) (row col gray : Nat) : Prop where
  | luma (coloured : .red ∈ r.layout.stored)
      (weighted : |1000 * (gray : Int) - (299 * r.seenAt row col .red +
        587 * r.seenAt row col .green + 114 * r.seenAt row col .blue)| ≤ 502)
      (neutral : ∀ v, (∀ c, c ≠ .alpha → r.seenAt row col c = v) → gray = v)
  | same (layout_eq : r.layout = .gray8) (kept : gray = r.sampleAt row col 0)
  | extreme (layout_eq : r.layout = .bitonal)
      (stretched : gray = if r.sampleAt row col 0 = 1 then 255 else 0)

section Pictures

variable {r : Raster} {p : Picture} {operation : String}
  (shown : r.toPicture operation = .ok p) {row col : Nat} (hr : row < r.height)
  (hc : col < r.width)

include shown hr hc

/-- A colour pixel is seen as one colour, whose luma is the gray value. -/
theorem exists_seen (coloured : .red ∈ r.layout.stored) :
    ∃ q : Rgb, (∀ c, c ≠ .alpha → r.seenAt row col c = (Colour.channel q c).toNat) ∧
      (gray p.grayOverBlack).sampleAt row col 0 = (Colour.luma q).toNat := by
  cases r with
  | colour order pixels =>
    obtain rfl := Except.ok.inj shown
    replace hr : row < pixels.height := hr
    replace hc : col < pixels.width := hc
    refine ⟨reorder order.toCanonical (pixels.get row col hr hc), ?_, ?_⟩
    · intro c named
      exact congrArg Int.ofNat (channelAt_colour named hr hc)
    · have cell := (Grid.get_map Colour.luma (pixels.map (reorder order.toCanonical)) row col hr
        hc).trans (congrArg Colour.luma (Grid.get_map ..))
      exact (sampleAt_gray hr hc).trans (congrArg UInt8.toNat cell)
  | alpha order pixels =>
    obtain rfl := Except.ok.inj shown
    replace hr : row < pixels.height := hr
    replace hc : col < pixels.width := hc
    refine ⟨Colour.flatten (reorder order.toCanonical (pixels.get row col hr hc)), ?_, ?_⟩
    · intro c named
      have covered : (alpha order pixels).layout.hasAlpha = true := rfl
      rw [seenAt, if_pos covered, channelAt_alpha hr hc, channelAt_alpha hr hc,
        Colour.round_overBlack, Colour.channel_flatten named]
    · have cell := (Grid.get_map (fun q => Colour.luma (Colour.flatten q))
        (pixels.map (reorder order.toCanonical)) row col hr hc).trans
          (congrArg (fun q => Colour.luma (Colour.flatten q)) (Grid.get_map ..))
      exact (sampleAt_gray hr hc).trans (congrArg UInt8.toNat cell)
  | _ => cases coloured

theorem grayAt_grayOverBlack : r.GrayAt row col ((gray p.grayOverBlack).sampleAt row col 0) := by
  by_cases coloured : Channel.red ∈ r.layout.stored
  · obtain ⟨q, seen, value⟩ := exists_seen shown hr hc coloured
    have red := seen .red nofun
    have green := seen .green nofun
    have blue := seen .blue nofun
    refine .luma coloured ?_ ?_
    · rw [value, red, green, blue]
      exact Colour.luma_error q
    · intro v neutral
      have same {c : Channel} (named : c ≠ .alpha) : Colour.channel q c = Colour.channel q .red := by
        apply UInt8.toNat_inj.mp
        exact_mod_cast ((seen c named).symm.trans (neutral c named)).trans
          ((neutral .red nofun).symm.trans red)
      rw [value, Colour.luma_of_gray rfl (same (c := .green) nofun) (same (c := .blue) nofun)]
      exact red.symm.trans (neutral .red nofun)
  · cases r with
    | gray pixels =>
      obtain rfl := Except.ok.inj shown
      exact .same rfl rfl
    | bitonal pixels =>
      obtain rfl := Except.ok.inj shown
      replace hr : row < pixels.height := hr
      replace hc : col < pixels.width := hc
      have value := (sampleAt_gray hr hc).trans
        (congrArg UInt8.toNat (Grid.get_map Colour.ofTruth pixels row col hr hc))
      refine .extreme rfl (value.trans ?_)
      rw [sampleAt_bitonal hr hc]
      cases pixels.get row col hr hc <;> rfl
    | custom kind axis pixels => cases shown
    | colour order pixels => cases order <;> simp [layout, Layout.stored] at coloured
    | alpha order pixels => cases order <;> simp [layout, Layout.stored] at coloured

end Pictures

end Raster

/-! ## The edit -/

/-- Without a limit, every raster of a standard layout has a gray raster of its size, whose values
are the lumas of its pixels and never fall from one pixel to another that is as bright or brighter
in every channel. -/
theorem gray_is_luma {settings : Settings} (free : Budget.limit settings none = .ok 0) :
    (∀ r : Raster, r.layout.isStandard = true → ∃ after,
      (Edit.tone .gray).leaves settings r = .ok after ∧ after.layout = .gray8 ∧
        after.size = r.size ∧ ∀ row col, row < r.height → col < r.width →
          r.GrayAt row col (after.sampleAt row col 0)) ∧
    ∀ (r r' after after' : Raster), .red ∈ r.layout.stored → .red ∈ r'.layout.stored →
      (Edit.tone .gray).leaves settings r = .ok after →
      (Edit.tone .gray).leaves settings r' = .ok after' →
      ∀ row col row' col', row < r.height → col < r.width → row' < r'.height → col' < r'.width →
        (∀ c, c ≠ .alpha → r.seenAt row col c ≤ r'.seenAt row' col' c) →
        after.sampleAt row col 0 ≤ after'.sampleAt row' col' 0 := by
  constructor
  · intro r standard
    obtain ⟨p, size_eq, shown, toned⟩ := Edit.exists_toned standard
    refine ⟨.gray p.grayOverBlack, toned free nofun, rfl, ?_, ?_⟩
    · rw [← size_eq]
      cases p <;> rfl
    · intro row col hr hc
      exact Raster.grayAt_grayOverBlack (shown "raster_to_image") hr hc
  · intro r r' after after' coloured coloured' left left' row col row' col' hr hc hr' hc' darker
    obtain ⟨p, -, shown, toned⟩ := Edit.exists_toned (Layout.isStandard_of_stored coloured)
    obtain ⟨p', -, brighter, toned'⟩ := Edit.exists_toned (Layout.isStandard_of_stored coloured')
    have made : (Edit.tone .gray).leaves settings r = .ok (.gray p.grayOverBlack) :=
      toned free nofun
    have made' : (Edit.tone .gray).leaves settings r' = .ok (.gray p'.grayOverBlack) :=
      toned' free nofun
    obtain rfl := Except.ok.inj (made.symm.trans left)
    obtain rfl := Except.ok.inj (made'.symm.trans left')
    obtain ⟨q, seen, value⟩ := Raster.exists_seen (shown "raster_to_image") hr hc coloured
    obtain ⟨q', seen', value'⟩ := Raster.exists_seen (brighter "raster_to_image") hr' hc' coloured'
    have channels {c : Channel} (named : c ≠ .alpha) :
        Colour.channel q c ≤ Colour.channel q' c := by
      have ordered := darker c named
      rw [seen c named, seen' c named] at ordered
      exact_mod_cast ordered
    have lumas := Colour.luma_mono (channels (c := .red) nofun) (channels (c := .green) nofun)
      (channels (c := .blue) nofun)
    exact value.trans_le (lumas.trans value'.ge)

theorem gray_is_luma_blue_first :
    Budget.limit .default none = .ok 0 ∧ ∃ after,
      (Edit.tone .gray).leaves .default (.colour .bgr (.replicate 1 1 #v[30, 20, 10])) =
          .ok after ∧
        (Raster.colour .bgr (.replicate 1 1 #v[30, 20, 10])).GrayAt 0 0 (after.sampleAt 0 0 0) := by
  have free : Budget.limit .default none = .ok 0 := rfl
  obtain ⟨after, left, -, -, values⟩ :=
    (gray_is_luma free).1 (.colour .bgr (.replicate 1 1 #v[30, 20, 10])) rfl
  exact ⟨free, after, left, values 0 0 (by decide) (by decide)⟩

end RasterEdit
