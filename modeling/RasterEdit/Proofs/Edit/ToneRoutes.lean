import RasterEdit.Proofs.Edit.Flattened

/-!
# Routes to reduced tones

Gray values, and black and white, can be reached from a raster at once, after its alpha is removed,
or from a raster whose tones are reduced already. All routes end in the same pixels, and a higher
threshold only takes white away.
-/

set_option autoImplicit false

namespace RasterEdit

namespace Raster

/-- A black and white raster of the size of a gray one that is white where the gray value reaches
the threshold. -/
structure Thresholded (threshold : Nat) (gray bitonal : Raster) : Prop where
  gray_layout : gray.layout = .gray8
  layout_eq : bitonal.layout = .bitonal
  size_eq : bitonal.size = gray.size
  sample_eq : ∀ {row col : Nat}, row < gray.height → col < gray.width →
    bitonal.sampleAt row col 0 = if threshold ≤ gray.sampleAt row col 0 then 1 else 0

theorem thresholded_map (threshold : Nat) (luma : Grid UInt8) :
    Thresholded threshold (gray luma) (bitonal (luma.map fun v => threshold ≤ v.toNat)) where
  gray_layout := rfl
  layout_eq := rfl
  size_eq := rfl
  sample_eq := by
    intro row col (hr : row < luma.height) (hc : col < luma.width)
    rw [sampleAt_bitonal hr hc, sampleAt_gray hr hc, Grid.get_map]
    by_cases reached : threshold ≤ (luma.get row col hr hc).toNat
    · rw [if_pos reached, decide_eq_true reached]
      rfl
    · rw [if_neg reached, decide_eq_false reached]
      rfl

/-- Whatever is white at a threshold is white at every lower one. -/
theorem Thresholded.white_of_le {low high : Nat} {gray bitonal bitonal' : Raster}
    (atLow : Thresholded low gray bitonal) (atHigh : Thresholded high gray bitonal')
    (ordered : low ≤ high) {row col : Nat} (hr : row < gray.height) (hc : col < gray.width)
    (white : bitonal'.sampleAt row col 0 = 1) : bitonal.sampleAt row col 0 = 1 := by
  rw [atHigh.sample_eq hr hc] at white
  have reached : high ≤ gray.sampleAt row col 0 := by
    by_contra below
    rw [if_neg below] at white
    exact Nat.zero_ne_one white
  rw [atLow.sample_eq hr hc, if_pos (ordered.trans reached)]

end Raster

/-- Black and white, expanded to gray values, fall on their own sides of a threshold. -/
theorem Colour.threshold_ofTruth {threshold : Nat} (lower : 1 ≤ threshold)
    (upper : threshold ≤ 255) (white : Bool) :
    decide (threshold ≤ (ofTruth white).toNat) = white := by
  cases white with
  | true => exact decide_eq_true upper
  | false => exact decide_eq_false (Nat.not_le.mpr lower)

namespace Edit

/-- Routes that all have a result, and the same pixels wherever any two of them end. -/
def Agree (routes : List (Result Raster)) : Prop :=
  ∀ first ∈ routes, ∀ second ∈ routes, ∃ a b : Raster,
    first = .ok a ∧ second = .ok b ∧ a.sameNumbers b = true

theorem agree_of_forall {routes : List (Result Raster)} {after : Raster}
    (standard : after.layout.isStandard = true) (all : ∀ route ∈ routes, route = .ok after) :
    Agree routes := by
  intro first inFirst second inSecond
  exact ⟨after, after, all first inFirst, all second inSecond, Raster.sameNumbers_self standard⟩

/-- The ways to a tone: at once, after removing alpha, from gray values, and from the tone itself. -/
def toneRoutes (settings : Settings) (wanted : Tone) (r : Raster) : List (Result Raster) :=
  let reduce := (tone wanted).leaves settings
  [reduce r,
    removeAlpha.leaves settings r >>= reduce,
    (tone .gray).leaves settings r >>= reduce,
    reduce r >>= reduce]

section Routes

variable {settings : Settings} (free : Budget.limit settings none = .ok 0) {wanted : Tone}
  (reduced : wanted ≠ .unchanged)

include free reduced

theorem tone_leaves_gray (luma : Grid UInt8) :
    (tone wanted).leaves settings (.gray luma) = .ok (toned settings wanted luma) :=
  tone_leaves free reduced rfl

/-- The threshold is what makes this true of black and white: at 0 every pixel would turn white, and
above 255 every pixel black. -/
theorem tone_leaves_toned (lower : 1 ≤ settings.bitonalThreshold)
    (upper : settings.bitonalThreshold ≤ 255) (luma : Grid UInt8) :
    (tone wanted).leaves settings (toned settings wanted luma) =
      .ok (toned settings wanted luma) := by
  cases wanted with
  | unchanged => exact absurd rfl reduced
  | gray => exact tone_leaves_gray free reduced luma
  | bitonal =>
    rw [toned, tone_leaves free reduced rfl]
    simp only [Raster.toPicture, Except.map, Picture.grayOverBlack, Picture.toGray, toned,
      Grid.map_map, Colour.threshold_ofTruth lower upper]

/-- The colours that removing alpha leaves have the gray values of the raster they come from. -/
theorem removeAlpha_then_tone {r : Raster} (standard : r.layout.isStandard = true) :
    (removeAlpha.leaves settings r >>= (tone wanted).leaves settings) =
      (tone wanted).leaves settings r := by
  cases r with
  | custom kind axis pixels => cases standard
  | alpha order pixels =>
    rw [removeAlpha_leaves free, Result.ok_bind, tone_leaves free reduced rfl,
      tone_leaves free reduced rfl]
    simp only [Raster.toPicture, Except.map, Picture.grayOverBlack, Picture.toGray, Grid.map_map,
      AlphaOrder.flattened, ColourOrder.reorder_toCanonical_ofCanonical]
  | _ => rfl

theorem toneRoutes_end (lower : 1 ≤ settings.bitonalThreshold)
    (upper : settings.bitonalThreshold ≤ 255) {r : Raster}
    (standard : r.layout.isStandard = true) {luma : Grid UInt8}
    (left : ∀ t : Tone, t ≠ .unchanged → (tone t).leaves settings r = .ok (toned settings t luma)) :
    ∀ route ∈ toneRoutes settings wanted r, route = .ok (toned settings wanted luma) := by
  intro route listed
  simp only [toneRoutes, List.mem_cons, List.not_mem_nil, or_false] at listed
  obtain rfl | rfl | rfl | rfl := listed
  · exact left wanted reduced
  · rw [removeAlpha_then_tone free reduced standard, left wanted reduced]
  · rw [left .gray (by decide), Result.ok_bind]
    exact tone_leaves_gray free reduced luma
  · rw [left wanted reduced, Result.ok_bind, tone_leaves_toned free reduced lower upper]

end Routes

/-- Without a limit and with thresholds from 1 to 255, every raster of a standard layout has a gray
and a black and white raster, on all routes the same. White is what reaches the threshold, so a
higher threshold leaves no pixel white that a lower one does not. -/
theorem tone_routes_agree {settings settings' : Settings}
    (free : Budget.limit settings none = .ok 0) (free' : Budget.limit settings' none = .ok 0)
    (lower : 1 ≤ settings.bitonalThreshold)
    (ordered : settings.bitonalThreshold ≤ settings'.bitonalThreshold)
    (upper : settings'.bitonalThreshold ≤ 255) {r : Raster}
    (standard : r.layout.isStandard = true) :
    (∀ wanted : Tone, wanted ≠ .unchanged → Agree (toneRoutes settings wanted r)) ∧
    ∃ gray bitonal bitonal' : Raster, gray.size = r.size ∧
      (tone .gray).leaves settings r = .ok gray ∧
      (tone .bitonal).leaves settings r = .ok bitonal ∧
      (tone .bitonal).leaves settings' r = .ok bitonal' ∧
      gray.Thresholded settings.bitonalThreshold bitonal ∧
      ∀ row col, row < r.height → col < r.width → bitonal'.sampleAt row col 0 = 1 →
        bitonal.sampleAt row col 0 = 1 := by
  obtain ⟨p, size_eq, -, left⟩ := exists_toned standard
  have graySize : (Raster.gray p.grayOverBlack).size = r.size := by
    rw [← size_eq]
    cases p <;> rfl
  have atLow := Raster.thresholded_map settings.bitonalThreshold p.grayOverBlack
  have atHigh := Raster.thresholded_map settings'.bitonalThreshold p.grayOverBlack
  constructor
  · intro wanted reduced
    have standard' : (toned settings wanted p.grayOverBlack).layout.isStandard = true := by
      cases wanted <;> rfl
    exact agree_of_forall standard'
      (toneRoutes_end free reduced lower (ordered.trans upper) standard fun _ => left free)
  · refine ⟨_, _, _, graySize, left free (by decide), left free (by decide), left free' (by decide),
      atLow, ?_⟩
    intro row col hr hc white
    have grayHeight : (Raster.gray p.grayOverBlack).height = r.height :=
      congrArg Size.height graySize
    have grayWidth : (Raster.gray p.grayOverBlack).width = r.width :=
      congrArg Size.width graySize
    exact atLow.white_of_le atHigh ordered (hr.trans_eq grayHeight.symm)
      (hc.trans_eq grayWidth.symm) white

theorem tone_routes_agree_argb :
    Budget.limit .default none = .ok 0 ∧
      Budget.limit { Settings.default with bitonalThreshold := 200 } none = .ok 0 ∧
      1 ≤ Settings.default.bitonalThreshold ∧ Settings.default.bitonalThreshold ≤ 200 ∧ 200 ≤ 255 ∧
      Agree (toneRoutes .default .bitonal (.alpha .argb (.replicate 2 1 #v[128, 1, 2, 255]))) := by
  have free : Budget.limit .default none = .ok 0 := rfl
  have free' : Budget.limit { Settings.default with bitonalThreshold := 200 } none = .ok 0 := rfl
  have lower : 1 ≤ Settings.default.bitonalThreshold := by decide
  have ordered : Settings.default.bitonalThreshold ≤ 200 := by decide
  have upper : 200 ≤ 255 := by decide
  exact ⟨free, free', lower, ordered, upper,
    (tone_routes_agree free free' lower ordered upper rfl).1 .bitonal (by decide)⟩

end Edit

end RasterEdit
