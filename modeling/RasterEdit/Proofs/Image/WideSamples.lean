import RasterEdit.Image.Decoded
import RasterEdit.Proofs.Edit.Normalized
import RasterEdit.Proofs.Edit.ToneRoutes

/-!
# Wide samples

Images with samples of 32 bits are adopted without changing a number, and stored in 16 bits if all
numbers fit. Samples of 16 bits are therefore normalized alike, whether a decoder widened them or
not and whichever of their bytes comes first.
-/

set_option autoImplicit false

namespace RasterEdit

theorem Grid.forall_cells_iff {α : Type} {g : Grid α} {p : α → Prop} :
    (∀ cell ∈ g.cells, p cell) ↔ ∀ row col (hr : row < g.height) (hc : col < g.width),
      p (g.get row col hr hc) := by
  constructor
  · intro all row col hr hc
    exact all _ (Array.getElem_mem _)
  · intro all cell member
    obtain ⟨i, inRange, rfl⟩ := Array.getElem_of_mem member
    have bound : i < g.width * g.height := g.size_cells ▸ inRange
    have position : i / g.width * g.width + i % g.width = i := Nat.div_add_mod' i g.width
    have found := all (i / g.width) (i % g.width) (row_lt bound) (col_lt bound)
    simpa only [get, position] using found

namespace DecodedImage

/-- All samples of an image of 32 bits fit 16 bits without a sign. -/
def AllFit (pixels : Grid (BitVec 32)) : Prop :=
  ∀ row col (hr : row < pixels.height) (hc : col < pixels.width),
    0 ≤ (pixels.get row col hr hc).toInt ∧ (pixels.get row col hr hc).toInt ≤ 65535

theorem fits16_iff {pixels : Grid (BitVec 32)} : fits16 pixels = true ↔ AllFit pixels := by
  have cells := Grid.forall_cells_iff (g := pixels) (p := fun s => 0 ≤ s.toInt ∧ s.toInt ≤ 65535)
  rw [AllFit, ← cells, fits16, Array.all_eq_true_iff_forall_mem]
  simp only [Bool.and_eq_true, decide_eq_true_eq]

theorem toNat_setWidth_of_fits {s : BitVec 32} (lower : 0 ≤ s.toInt) (upper : s.toInt ≤ 65535) :
    ((s.setWidth 16).toNat : Int) = s.toInt := by
  have value := BitVec.toInt_eq_toNat_cond s
  have inRange := s.isLt
  rw [BitVec.toNat_setWidth]
  split at value <;> omega

theorem toInt_setWidth_of_wide (s : BitVec 16) : (s.setWidth 32).toInt = s.toNat := by
  have value := BitVec.toInt_eq_toNat_cond (s.setWidth 32)
  have inRange := s.isLt
  rw [BitVec.toNat_setWidth] at value
  split at value <;> omega

theorem allFit_widened (pixels : Grid (BitVec 16)) :
    AllFit (pixels.map (BitVec.setWidth 32)) := by
  intro row col hr hc
  have cell := Grid.get_map (BitVec.setWidth 32) pixels row col hr hc
  rw [cell, toInt_setWidth_of_wide]
  have inRange := (pixels.get row col hr hc).isLt
  omega

/-! ## Adopted samples -/

section Flat

variable {n : Nat} {kind : SampleKind} (bits : kind.bits = n) (pixels : Grid (BitVec n))

theorem sampleAt_flatCells {row col : Nat} (hr : row < pixels.height) (hc : col < pixels.width) :
    (flatCells kind bits pixels).sampleAt row col 0 = (pixels.get row col hr hc).toNat := by
  subst bits
  have stored := @Raster.sampleAt_custom kind .flat
    (pixels.map fun s => Vector.replicate 1 (s.cast rfl)) row col 0 hr hc Nat.one_pos
  have cell := Grid.get_map (fun s => Vector.replicate 1 (s.cast rfl)) pixels row col hr hc
  exact stored.trans (congrArg (fun p : Vector kind.Sample 1 => p[0].toNat) cell)

theorem integer?_flatCells {row col : Nat} (hr : row < pixels.height) (hc : col < pixels.width) :
    kind.integer? (BitVec.ofNat _ ((flatCells kind bits pixels).sampleAt row col 0)) =
      kind.integer? ((pixels.get row col hr hc).cast bits.symm) := by
  rw [sampleAt_flatCells bits pixels hr hc]
  subst bits
  rw [BitVec.ofNat_toNat, BitVec.setWidth_eq]
  rfl

theorem normalize_flatCells {settings : Settings} (free : Budget.limit settings none = .ok 0) :
    Edit.normalize.leaves settings (flatCells kind bits pixels) = .ok (.colour .rgb
      (pixels.map fun s => Colour.ofGray (Depth.byte kind (s.cast bits.symm)))) := by
  have colours (s : BitVec n) : Colour.ofChannels
      ((Vector.replicate 1 (s.cast bits.symm)).map (Depth.byte kind)) =
        Colour.ofGray (Depth.byte kind (s.cast bits.symm)) := by
    rw [Colour.ofChannels_one, Vector.getElem_map, Vector.getElem_replicate]
  rw [flatCells, Edit.normalize_leaves free]
  exact congrArg (fun g => Except.ok (Raster.colour .rgb g))
    ((Grid.map_map ..).trans (congrArg (fun f => Grid.map f pixels) (funext colours)))

end Flat

/-- An image of 32 bits is adopted with all of its numbers, in 16 bits exactly if all fit. -/
structure Adopts (pixels : Grid (BitVec 32)) (r : Raster) : Prop where
  layout_eq : r.layout = .custom
  size_eq : r.size = ⟨pixels.width, pixels.height⟩
  channels_eq : r.channels = 1
  kind_eq : r.kind = .uint16 ∨ r.kind = .int32
  narrow_iff : r.kind = .uint16 ↔ AllFit pixels
  kept : ∀ row col (hr : row < pixels.height) (hc : col < pixels.width),
    r.kind.integer? (BitVec.ofNat _ (r.sampleAt row col 0)) =
      some (pixels.get row col hr hc).toInt

theorem adopts_narrow {pixels : Grid (BitVec 32)} (fit : AllFit pixels) :
    Adopts pixels (flatCells .uint16 rfl (pixels.map (BitVec.setWidth 16))) where
  layout_eq := rfl
  size_eq := rfl
  channels_eq := rfl
  kind_eq := .inl rfl
  narrow_iff := iff_of_true rfl fit
  kept := by
    intro row col hr hc
    obtain ⟨lower, upper⟩ := fit row col hr hc
    have cell := Grid.get_map (BitVec.setWidth 16) pixels row col hr hc
    have narrowed := toNat_setWidth_of_fits lower upper
    rw [← cell] at narrowed
    have stored :=
      @integer?_flatCells 16 .uint16 rfl (pixels.map (BitVec.setWidth 16)) row col hr hc
    exact stored.trans (congrArg some narrowed)

theorem adopts_wide {pixels : Grid (BitVec 32)} (beyond : ¬AllFit pixels) :
    Adopts pixels (flatCells .int32 rfl pixels) where
  layout_eq := rfl
  size_eq := rfl
  channels_eq := rfl
  kind_eq := .inr rfl
  narrow_iff := iff_of_false nofun beyond
  kept := by
    intro row col hr hc
    exact @integer?_flatCells 32 .int32 rfl pixels row col hr hc

theorem adopt_of_allFit {pixels : Grid (BitVec 32)} (fit : AllFit pixels)
    (transparency : Option Transparency) : (int32 pixels).adopt transparency =
      .ok (flatCells .uint16 rfl (pixels.map (BitVec.setWidth 16))) := by
  simp only [adopt, fits16_iff.mpr fit, ↓reduceIte]
  rfl

theorem exists_adopts (pixels : Grid (BitVec 32)) (transparency : Option Transparency) :
    ∃ r, (int32 pixels).adopt transparency = .ok r ∧ Adopts pixels r := by
  by_cases fit : AllFit pixels
  · exact ⟨_, adopt_of_allFit fit transparency, adopts_narrow fit⟩
  · refine ⟨_, ?_, adopts_wide fit⟩
    simp only [adopt, fits16_iff, fit, ↓reduceIte]
    rfl

/-- Widened samples are narrowed to what they were. -/
theorem adopt_widened (pixels : Grid (BitVec 16)) (transparency : Option Transparency) :
    (int32 (pixels.map (BitVec.setWidth 32))).adopt transparency =
      .ok (flatCells .uint16 rfl pixels) := by
  have back (s : BitVec 16) : (s.setWidth 32).setWidth 16 = s := by
    rw [BitVec.setWidth_setWidth_of_le s (by decide), BitVec.setWidth_eq]
  have narrowed : (pixels.map (BitVec.setWidth 32)).map (BitVec.setWidth 16) = pixels :=
    (Grid.map_map ..).trans (Grid.map_id_of_forall back pixels)
  exact (adopt_of_allFit (allFit_widened pixels) transparency).trans
    (congrArg (fun g => Except.ok (@flatCells 16 .uint16 rfl g)) narrowed)

/-! ## Normalized samples -/

/-- The images of the same 16-bit numbers: widened by a decoder, or with either byte first. -/
def ofNumbers (pixels : Grid (BitVec 16)) : List DecodedImage :=
  [.int32 (pixels.map (BitVec.setWidth 32)), .wide16 false pixels, .wide16 true pixels]

/-- Every image of 32-bit samples is adopted as it is, in 16 bits if all samples fit. Without a
limit, normalizing 16-bit samples gives the same pixels for every way in which they are stored. -/
theorem wide_samples_are_kept {settings : Settings} (free : Budget.limit settings none = .ok 0)
    (transparency : Option Transparency) :
    (∀ pixels : Grid (BitVec 32), ∃ r,
      (int32 pixels).adopt transparency = .ok r ∧ Adopts pixels r) ∧
    ∀ pixels : Grid (BitVec 16), Edit.Agree ((ofNumbers pixels).map fun image =>
      image.adopt transparency >>= Edit.normalize.leaves settings) := by
  refine ⟨fun pixels => exists_adopts pixels transparency, ?_⟩
  intro pixels
  have standard : (Raster.colour .rgb (pixels.map fun s =>
    Colour.ofGray (Depth.byte .uint16 s))).layout.isStandard = true := rfl
  apply Edit.agree_of_forall standard
  intro route listed
  simp only [ofNumbers, List.map_cons, List.map_nil, List.mem_cons, List.not_mem_nil,
    or_false] at listed
  -- Both kinds of 16-bit samples stand for the same numbers and have the same bytes.
  obtain rfl | rfl | rfl := listed
  · rw [adopt_widened, Result.ok_bind]
    exact @normalize_flatCells 16 .uint16 rfl pixels settings free
  · exact @normalize_flatCells 16 .uint16 rfl pixels settings free
  · exact @normalize_flatCells 16 .wide16 rfl pixels settings free

theorem wide_samples_are_kept_signed :
    Budget.limit .default none = .ok 0 ∧
    (∃ r, (int32 ⟨2, 1, #[-5, 70000], rfl⟩).adopt none = .ok r ∧ r.kind = .int32 ∧
      r.kind.integer? (BitVec.ofNat _ (r.sampleAt 0 0 0)) = some (-5)) ∧
    Edit.Agree ((ofNumbers ⟨2, 1, #[65535, 32768], rfl⟩).map fun image =>
      image.adopt none >>= Edit.normalize.leaves .default) := by
  have free : Budget.limit .default none = .ok 0 := rfl
  obtain ⟨kept, agree⟩ := wide_samples_are_kept free none
  obtain ⟨r, adopted, adopts⟩ := kept ⟨2, 1, #[-5, 70000], rfl⟩
  have signed : r.kind ≠ .uint16 := by
    intro narrow
    have inside := adopts.narrow_iff.mp narrow 0 0 (by decide) (by decide)
    exact absurd inside.1 (by decide)
  refine ⟨free, ⟨r, adopted, adopts.kind_eq.resolve_left signed, ?_⟩, agree _⟩
  exact adopts.kept 0 0 (by decide) (by decide)

end DecodedImage

end RasterEdit
