import Mathlib.Data.List.Basic
import RasterEdit.Proofs.Image.RoundTrip
import RasterEdit.Proofs.Result

/-!
# Arrays in canonical order

Reading a block as a raster of a layout first picks the channels in the order of the layout and then
checks the shape. Picking forgets how many channels there were: a layout whose order is not the
canonical one takes blocks with more channels than it has and drops the rest, where the canonical
layout refuses them. Nothing else is ever lost.
-/

set_option autoImplicit false

namespace RasterEdit

/-! ## Blocks of samples -/

theorem elementCount_append_singleton (front : List Nat) (last : Nat) :
    elementCount (front ++ [last]) = elementCount front * last := by
  induction front with
  | nil => simp [elementCount]
  | cons axis front ih =>
    change axis * elementCount (front ++ [last]) = axis * elementCount front * last
    rw [ih, Nat.mul_assoc]

namespace Block

/-- Every pattern is that of a sample: an array of samples holds no others. -/
def IsSound (b : Block) : Prop :=
  ∀ kind, b.element = .sample kind →
    ∀ i, (BitVec.ofNat kind.bits (b.patternAt i)).toNat = b.patternAt i

theorem isSound_ofFn {element : Element} {shape : List Nat} {pattern : Nat → Nat}
    (sound : ∀ kind, element = .sample kind → ∀ i < elementCount shape,
      (BitVec.ofNat kind.bits (pattern i)).toNat = pattern i) :
    (ofFn element shape pattern).IsSound := by
  intro kind samples i
  by_cases inside : i < elementCount shape
  · rw [patternAt_ofFn inside]
    exact sound kind samples i inside
  · have outside : (ofFn element shape pattern).patternAt i = 0 := by
      simp [patternAt, ofFn, inside]
    rw [outside, BitVec.toNat_ofNat, Nat.zero_mod]

theorem ext_patternAt {a b : Block} (elements : a.element = b.element) (shapes : a.shape = b.shape)
    (same : ∀ i < elementCount a.shape, a.patternAt i = b.patternAt i) : a = b := by
  obtain ⟨element, shape, patterns, size⟩ := a
  obtain ⟨element', shape', patterns', size'⟩ := b
  obtain rfl : element = element' := elements
  obtain rfl : shape = shape' := shapes
  congr 1
  apply Array.ext (size.trans size'.symm)
  intro i inside inside'
  simpa [patternAt, inside, inside'] using same i (size ▸ inside)

/-- What picking entries of the last axis gives. -/
theorem gather_cases {b picked : Block} {order : List Nat} (done : b.gather order = .ok picked) :
    ∃ front last, b.shape = front ++ [last] ∧ (∀ index ∈ order, index < last) ∧
      picked = ofFn b.element (front ++ [order.length]) fun i =>
        b.patternAt (i / order.length * last + order.getD (i % order.length) 0) := by
  unfold gather at done
  split at done
  · cases done
  · rename_i last front reversed
    split at done
    · cases done
    · rename_i found
      refine ⟨front.reverse, last, ?_, ?_, (Except.ok.inj done).symm⟩
      · rw [← List.reverse_reverse b.shape, reversed, List.reverse_cons]
      · simpa [List.find?_eq_none] using found

theorem isSound_gather {b picked : Block} {order : List Nat} (sound : b.IsSound)
    (done : b.gather order = .ok picked) : picked.IsSound := by
  obtain ⟨front, last, -, -, rfl⟩ := gather_cases done
  exact isSound_ofFn fun kind samples i _ => sound kind samples _

/-- Picking from what was picked is picking once. -/
theorem gather_gather {b picked : Block} {first second : List Nat}
    (done : b.gather first = .ok picked) (inRange : ∀ index ∈ second, index < first.length) :
    picked.gather second = b.gather (second.map (first.getD · 0)) := by
  obtain ⟨front, last, shape, positions, rfl⟩ := gather_cases done
  have composed : ∀ index ∈ second.map (first.getD · 0), index < last := by
    intro index member
    obtain ⟨position, listed, rfl⟩ := List.mem_map.mp member
    have stored := inRange position listed
    simpa [stored] using positions _ (List.getElem_mem stored)
  rw [gather_of_lt rfl inRange, gather_of_lt shape composed]
  simp only [List.length_map]
  refine congrArg Except.ok (ofFn_congr ?_)
  intro i bound
  rw [elementCount_append_singleton] at bound
  have channel : i % second.length < second.length :=
    Nat.mod_lt i (Nat.pos_of_lt_mul_left bound)
  have source : second.getD (i % second.length) 0 < first.length := by
    simpa [channel] using inRange _ (List.getElem_mem channel)
  have pixel : i / second.length < elementCount front :=
    Nat.div_lt_of_lt_mul (by rwa [Nat.mul_comm])
  obtain ⟨quotient, remainder⟩ := Raster.channel_position (i := i / second.length) source
  rw [patternAt_ofFn (elementCount_append_singleton .. ▸ Raster.channel_position_lt pixel source),
    quotient, remainder]
  simp [channel]

/-- Picking every entry changes nothing. -/
theorem gather_range {b : Block} {front : List Nat} {last : Nat}
    (shape : b.shape = front ++ [last]) : b.gather (List.range last) = .ok b := by
  rw [gather_of_lt shape fun index => List.mem_range.mp, List.length_range]
  refine congrArg Except.ok (ext_patternAt rfl shape.symm ?_)
  intro i (bound : i < elementCount (front ++ [last]))
  have channel : i % last < last := by
    rw [elementCount_append_singleton] at bound
    exact Nat.mod_lt i (Nat.pos_of_lt_mul_left bound)
  rw [patternAt_ofFn bound]
  simp [channel, Nat.div_add_mod']

end Block

/-! ## Blocks that are read -/

namespace Raster

section Blocks

variable {α : Type}

theorem blockOf_pixelsOf {b : Block} {kind : SampleKind} {stacked : Bool} {height width n : Nat}
    {pattern : α → Nat} {sample : Nat → α} (element : b.element = .sample kind)
    (shape : b.shape = if stacked then [height, width, n] else [height, width])
    (single : stacked = false → n = 1)
    (reads : ∀ i, pattern (sample (b.patternAt i)) = b.patternAt i) :
    blockOf kind stacked pattern (pixelsOf b width height n sample) = b := by
  refine Block.ext_patternAt element.symm shape.symm ?_
  intro i bound
  have count : elementCount (if stacked then [height, width, n] else [height, width]) =
      height * width * n := by
    cases stacked with
    | true => simp [elementCount, Nat.mul_assoc]
    | false => simp [elementCount, single rfl]
  replace bound : i < height * width * n := count ▸ bound
  have channel : i % n < n := Nat.mod_lt i (Nat.pos_of_lt_mul_left bound)
  have pixel : i / n < width * height :=
    Nat.div_lt_of_lt_mul (by rwa [Nat.mul_comm n, Nat.mul_comm width])
  have row := Grid.row_lt pixel
  have col := Grid.col_lt pixel
  have placed : (i / n / width * width + i / n % width) * n + i % n = i := by
    rw [Nat.div_add_mod', Nat.div_add_mod']
  have read : (pixelsOf b width height n sample).get _ _ row col = Vector.ofFn fun k : Fin n =>
      sample (b.patternAt ((i / n / width * width + i / n % width) * n + k)) := Grid.get_ofFn ..
  have stored := patternAt_blockOf kind pattern (pixelsOf b width height n sample) single row col
    channel
  rw [read, Vector.getElem_ofFn, placed, reads] at stored
  exact (congrArg _ placed.symm).trans stored

theorem map_cellsOf (b : Block) (width height : Nat) (sample : Nat → α) :
    (cellsOf b width height sample).map (Vector.replicate 1) =
      pixelsOf b width height 1 sample := by
  refine Grid.ext_get rfl rfl ?_
  intro row col (hr : row < height) (hc : col < width)
  have cell : ((cellsOf b width height sample).map (Vector.replicate 1)).get row col hr hc =
      Vector.replicate 1 (sample (b.patternAt (row * width + col))) :=
    (Grid.get_map ..).trans (congrArg _ (Grid.get_ofFn ..))
  refine cell.trans (Eq.trans ?_ (Grid.get_ofFn ..).symm)
  apply Vector.ext
  intro k hk
  obtain rfl : k = 0 := by omega
  simp

end Blocks

end Raster

/-- Which elements and axes a standard layout takes. -/
theorem Layout.fault?_eq_none_iff {layout : Layout} {kind : SampleKind} {channels : Nat}
    (holds : layout.kind? = some kind) (counts : layout.channels? = some channels)
    {element : Element} {shape : List Nat} :
    layout.fault? element shape = none ↔ element = .sample kind ∧
      ∃ height width,
        shape = if channels = 1 then [height, width] else [height, width, channels] := by
  have flat : shape.length = 2 ↔ ∃ height width, shape = [height, width] := List.length_eq_two
  have stacked : shape.length = 3 ∧ shape[2]? = some channels ↔
      ∃ height width, shape = [height, width, channels] := by
    constructor
    · rintro ⟨rank, last⟩
      obtain ⟨height, width, count, rfl⟩ := List.length_eq_three.mp rank
      obtain rfl : count = channels := by simpa using last
      exact ⟨height, width, rfl⟩
    · rintro ⟨height, width, rfl⟩
      exact ⟨rfl, rfl⟩
  simp only [fault?, holds, counts]
  by_cases samples : element = .sample kind
  · by_cases single : channels = 1
    · simp [samples, single, ← flat]
    · simp [samples, single, ← stacked]
  · simp [samples]

namespace Raster

theorem fault?_of_ofBlock {layout : Layout} {b : Block} {r : Raster}
    (read : ofBlock layout b = .ok r) : layout.fault? b.element b.shape = none := by
  unfold ofBlock at read
  split at read
  · cases read
  · assumption

/-- A block that is read as a raster is the block of that raster. -/
theorem toBlock_of_ofBlock {layout : Layout} (standard : layout.isStandard = true) {b : Block}
    {r : Raster} (sound : b.IsSound) (read : ofBlock layout b = .ok r) :
    r.layout = layout ∧ r.toBlock = b := by
  have fits := fault?_of_ofBlock read
  have byte {kind : SampleKind} (samples : b.element = .sample kind) (bits : kind.bits = 8)
      (i : Nat) : (b.patternAt i).toUInt8.toNat = b.patternAt i := by
    have stored := sound kind samples i
    rw [bits] at stored
    exact stored
  unfold ofBlock at read
  rw [fits] at read
  cases layout with
  | colour order =>
    obtain rfl := Except.ok.inj read
    obtain ⟨samples, height, width, shape⟩ := (Layout.fault?_eq_none_iff rfl rfl).mp fits
    refine ⟨rfl, blockOf_pixelsOf samples ?_ nofun (byte samples rfl)⟩
    simp [shape]
  | alpha order =>
    obtain rfl := Except.ok.inj read
    obtain ⟨samples, height, width, shape⟩ := (Layout.fault?_eq_none_iff rfl rfl).mp fits
    refine ⟨rfl, blockOf_pixelsOf samples ?_ nofun (byte samples rfl)⟩
    simp [shape]
  | gray8 =>
    obtain rfl := Except.ok.inj read
    obtain ⟨samples, height, width, shape⟩ := (Layout.fault?_eq_none_iff rfl rfl).mp fits
    refine ⟨rfl, ?_⟩
    rw [toBlock, map_cellsOf]
    refine blockOf_pixelsOf samples ?_ (fun _ => rfl) (byte samples rfl)
    simp [shape]
  | bitonal =>
    obtain rfl := Except.ok.inj read
    obtain ⟨samples, height, width, shape⟩ := (Layout.fault?_eq_none_iff rfl rfl).mp fits
    refine ⟨rfl, ?_⟩
    rw [toBlock, map_cellsOf]
    refine blockOf_pixelsOf samples ?_ (fun _ => rfl) ?_
    · simp [shape]
    · intro i
      have stored := sound .boolean samples i
      have small : b.patternAt i < 2 := stored ▸ (BitVec.ofNat 1 (b.patternAt i)).isLt
      obtain zero | one : b.patternAt i = 0 ∨ b.patternAt i = 1 := by omega
      · rw [zero]; rfl
      · rw [one]; rfl
  | custom => cases standard

theorem succeeds_ofBlock {layout : Layout} (standard : layout.isStandard = true) {b : Block}
    (fits : layout.fault? b.element b.shape = none) : Result.Succeeds (ofBlock layout b) := by
  simp only [ofBlock, fits]
  cases layout with
  | custom => cases standard
  | _ => exact Result.succeeds_ok _

/-! ## Orders of channels -/

/-- The samples of a raster in canonical order are picked from those in stored order. -/
theorem gather_toBlock {r : Raster} {back : List Nat} (order : r.layout.toCanonical? = some back) :
    r.toBlock.gather back = .ok r.canonical := by
  cases r with
  | colour order pixels =>
    obtain rfl := Option.some.inj order
    exact gather_blockOf ..
  | alpha order pixels =>
    obtain rfl := Option.some.inj order
    exact gather_blockOf ..
  | _ => cases order

/-- Picking channels in the order of a layout and then in canonical order picks the first ones. -/
theorem orders_of_layout {layout : Layout} {order : List Nat}
    (some_order : layout.ofCanonical? = some order) :
    ∃ back channels, layout.toCanonical? = some back ∧ layout.channels? = some channels ∧
      channels ≠ 1 ∧ layout.kind? = some .uint8 ∧ order.length = channels ∧
      (∀ index, index ∈ order ↔ index < channels) ∧ (∀ index ∈ back, index < channels) ∧
      back.map (order.getD · 0) = List.range channels := by
  cases layout with
  | colour order =>
    obtain rfl := Option.some.inj some_order
    refine ⟨_, 3, rfl, rfl, by decide, rfl, ?_, ?_, ?_, ?_⟩
    · cases order <;> rfl
    · intro index
      cases order <;> simp [ColourOrder.ofCanonical] <;> omega
    · cases order <;> decide
    · cases order <;> decide
  | alpha order =>
    obtain rfl := Option.some.inj some_order
    refine ⟨_, 4, rfl, rfl, by decide, rfl, ?_, ?_, ?_, ?_⟩
    · cases order <;> rfl
    · intro index
      cases order <;> simp [AlphaOrder.ofCanonical] <;> omega
    · cases order <;> decide
    · cases order <;> decide
  | _ => cases some_order

end Raster

theorem Layout.exists_kind_channels {layout : Layout} (standard : layout.isStandard = true) :
    ∃ kind channels, layout.kind? = some kind ∧ layout.channels? = some channels := by
  cases layout with
  | custom => cases standard
  | _ => exact ⟨_, _, rfl, rfl⟩

/-- The canonical layout takes the same elements and axes as a layout itself. -/
theorem Layout.fault?_canonical {layout : Layout} (standard : layout.isStandard = true)
    {element : Element} {shape : List Nat} :
    layout.canonical.fault? element shape = none ↔ layout.fault? element shape = none := by
  cases layout with
  | colour order => exact (fault?_eq_none_iff rfl rfl).trans (fault?_eq_none_iff rfl rfl).symm
  | alpha order => exact (fault?_eq_none_iff rfl rfl).trans (fault?_eq_none_iff rfl rfl).symm
  | custom => cases standard
  | _ => exact Iff.rfl

/-- The last axis holds more channels than the pixels of the layout have. -/
def Layout.HasExtraChannels (layout : Layout) (shape : List Nat) : Prop :=
  ∃ height width count channels,
    shape = [height, width, count] ∧ layout.channels? = some channels ∧ channels < count

theorem Layout.not_hasExtraChannels_of_fits {layout : Layout} (standard : layout.isStandard = true)
    {element : Element} {shape : List Nat} (fits : layout.fault? element shape = none) :
    ¬layout.HasExtraChannels shape := by
  rintro ⟨height, width, count, channels, rfl, counts, more⟩
  obtain ⟨kind, _, holds, -⟩ := exists_kind_channels standard
  obtain ⟨-, height', width', shape⟩ := (fault?_eq_none_iff holds counts).mp fits
  split at shape
  · cases shape
  · cases shape
    exact Nat.lt_irrefl _ more

namespace Raster

/-- An axis of its own never makes a block without axes fit a standard layout. -/
theorem ofBlock_of_shaped {layout : Layout} (standard : layout.isStandard = true) {b : Block}
    {r : Raster} (read : ofBlock layout
      (if b.shape = [] then Block.ofFn b.element [1] b.patternAt else b) = .ok r) :
    ofBlock layout b = .ok r := by
  split at read
  · obtain ⟨kind, channels, holds, counts⟩ := Layout.exists_kind_channels standard
    obtain ⟨-, height, width, shape⟩ :=
      (Layout.fault?_eq_none_iff holds counts).mp (fault?_of_ofBlock read)
    split at shape <;> cases shape
  · exact read

/-- The stored samples of the raster that a layout makes of a block are the entries that the order
of the layout picks. -/
theorem gather_of_ofCanonical {layout : Layout} {order : List Nat}
    (some_order : layout.ofCanonical? = some order) {b : Block} {r : Raster} (sound : b.IsSound)
    (taken : ofCanonical layout b = .ok r) :
    r.layout = layout ∧ b.gather order = .ok r.toBlock := by
  obtain ⟨back, channels, -, counts, several, holds, length_order, -, -, -⟩ :=
    orders_of_layout some_order
  have standard : layout.isStandard = true := by
    cases layout with
    | custom => cases some_order
    | _ => rfl
  simp only [ofCanonical, some_order] at taken
  by_cases identity : order = List.range order.length
  · rw [if_pos identity] at taken
    have read := ofBlock_of_shaped standard taken
    obtain ⟨layout_eq, block_eq⟩ := toBlock_of_ofBlock standard sound read
    obtain ⟨-, height, width, shape⟩ :=
      (Layout.fault?_eq_none_iff holds counts).mp (fault?_of_ofBlock read)
    rw [if_neg several] at shape
    rw [identity, length_order, block_eq]
    exact ⟨layout_eq, Block.gather_range (show b.shape = [height, width] ++ [channels] from shape)⟩
  · rw [if_neg identity] at taken
    obtain ⟨picked, done, read⟩ := Result.bind_eq_ok.mp taken
    obtain ⟨layout_eq, block_eq⟩ := toBlock_of_ofBlock standard (Block.isSound_gather sound done)
      (ofBlock_of_shaped standard read)
    exact ⟨layout_eq, block_eq ▸ done⟩

/-- What a layout with an order keeps of a block: as many channels as it has, in canonical order. -/
theorem leading_channels_of_ofCanonical {layout : Layout} {order : List Nat}
    (some_order : layout.ofCanonical? = some order) {b : Block} {r : Raster} (sound : b.IsSound)
    (taken : ofCanonical layout b = .ok r) :
    ∃ channels, layout.channels? = some channels ∧
      b.gather (List.range channels) = .ok r.canonical := by
  obtain ⟨back, channels, some_back, counts, -, -, length_order, -, inRange, undone⟩ :=
    orders_of_layout some_order
  obtain ⟨layout_eq, stored⟩ := gather_of_ofCanonical some_order sound taken
  refine ⟨channels, counts, ?_⟩
  rw [← undone, ← Block.gather_gather stored (length_order ▸ inRange)]
  exact gather_toBlock (layout_eq ▸ some_back)

theorem ofBlock_of_plain {layout : Layout} (standard : layout.isStandard = true)
    (plain : layout.ofCanonical? = none) {b : Block} {r : Raster}
    (taken : ofCanonical layout b = .ok r) : ofBlock layout b = .ok r := by
  simp only [ofCanonical, plain, pure_bind] at taken
  exact ofBlock_of_shaped standard taken

/-- The layout of the raster that is made of a block, and its samples fit the layout. -/
theorem fault?_canonical_of_ofCanonical {layout : Layout} (standard : layout.isStandard = true)
    {b : Block} {r : Raster} (sound : b.IsSound) (taken : ofCanonical layout b = .ok r) :
    layout.fault? r.canonical.element r.canonical.shape = none := by
  have layout_eq : r.layout = layout := by
    cases some_order : layout.ofCanonical? with
    | none =>
      have read := ofBlock_of_plain standard some_order taken
      exact (toBlock_of_ofBlock standard sound read).1
    | some order => exact (gather_of_ofCanonical some_order sound taken).1
  rw [← Layout.fault?_canonical standard, ← layout_eq, ← layout_twin, ← toBlock_twin]
  exact r.twin.fault?_toBlock

theorem canonical_eq_iff_of_ofCanonical {layout : Layout} (standard : layout.isStandard = true)
    {b : Block} {r : Raster} (sound : b.IsSound) (taken : ofCanonical layout b = .ok r) :
    r.canonical = b ↔ ¬layout.HasExtraChannels b.shape := by
  cases some_order : layout.ofCanonical? with
  | none =>
    have read := ofBlock_of_plain standard some_order taken
    obtain ⟨layout_eq, block_eq⟩ := toBlock_of_ofBlock standard sound read
    have same : r.canonical = b := by
      rw [← block_eq]
      cases r with
      | colour order pixels => subst layout_eq; cases some_order
      | alpha order pixels => subst layout_eq; cases some_order
      | _ => rfl
    exact iff_of_true same (Layout.not_hasExtraChannels_of_fits standard (fault?_of_ofBlock read))
  | some order =>
    have fits := fault?_canonical_of_ofCanonical standard sound taken
    constructor
    · intro same
      exact Layout.not_hasExtraChannels_of_fits standard (same ▸ fits)
    · intro exact_axes
      obtain ⟨channels, counts, leading⟩ := leading_channels_of_ofCanonical some_order sound taken
      obtain ⟨-, channels', -, counts', several, holds, -⟩ := orders_of_layout some_order
      obtain rfl : channels = channels' := Option.some.inj (counts.symm.trans counts')
      obtain ⟨-, height, width, shape⟩ := (Layout.fault?_eq_none_iff holds counts).mp fits
      obtain ⟨front, last, axes, inRange, kept⟩ := Block.gather_cases leading
      rw [if_neg several, kept, List.length_range] at shape
      obtain rfl : front = [height, width] := List.append_cancel_right
        (show front ++ [channels] = [height, width] ++ [channels] from shape)
      have enough : channels ≤ last := by
        by_contra few
        exact Nat.lt_irrefl last (inRange last (List.mem_range.mpr (by omega)))
      have same : last = channels := by
        by_contra differ
        exact exact_axes ⟨height, width, last, channels, axes, counts, by omega⟩
      rw [Block.gather_range (same ▸ axes)] at leading
      exact (Except.ok.inj leading).symm

theorem range_iff_canonical {layout : Layout} {order : List Nat}
    (some_order : layout.ofCanonical? = some order) :
    order = List.range order.length ↔ layout.canonical = layout := by
  cases layout with
  | colour order =>
    obtain rfl := Option.some.inj some_order
    cases order <;> decide
  | alpha order =>
    obtain rfl := Option.some.inj some_order
    cases order <;> decide
  | _ => cases some_order

/-- A layout with an order takes every block of bytes with enough channels, and one with the
canonical order only those with no more. -/
theorem succeeds_ofCanonical_of_order {layout : Layout} {order : List Nat}
    (some_order : layout.ofCanonical? = some order) {b : Block} {height width count channels : Nat}
    (samples : b.element = .sample .uint8) (shape : b.shape = [height, width, count])
    (counts : layout.channels? = some channels) (enough : channels ≤ count)
    (canonical : layout.canonical = layout → count = channels) :
    Result.Succeeds (ofCanonical layout b) := by
  obtain ⟨-, channels', -, counts', several, holds, length_order, entries, -⟩ :=
    orders_of_layout some_order
  obtain rfl : channels = channels' := Option.some.inj (counts.symm.trans counts')
  have standard : layout.isStandard = true := by
    cases layout with
    | custom => cases some_order
    | _ => rfl
  have picked := Block.gather_of_lt (show b.shape = [height, width] ++ [count] from shape)
    fun index member => Nat.lt_of_lt_of_le ((entries index).mp member) enough
  have fits : layout.fault? (.sample .uint8) [height, width, channels] = none := by
    refine (Layout.fault?_eq_none_iff holds counts).mpr ⟨rfl, height, width, ?_⟩
    rw [if_neg several]
  by_cases identity : order = List.range order.length
  · obtain rfl := canonical ((range_iff_canonical some_order).mp identity)
    rw [@ofCanonical_of_ordered _ b b _ some_order (if_pos identity) (by simp [shape])]
    exact succeeds_ofBlock standard (by rwa [samples, shape])
  · rw [ofCanonical_of_ordered some_order ((if_neg identity).trans picked) nofun]
    refine succeeds_ofBlock standard ?_
    simpa [Block.ofFn, length_order, samples] using fits

theorem succeeds_ofCanonical_of_fits {layout : Layout} (standard : layout.isStandard = true)
    {b : Block} (fits : layout.fault? b.element b.shape = none) :
    Result.Succeeds (ofCanonical layout b) := by
  obtain ⟨kind, channels, holds, counts⟩ := Layout.exists_kind_channels standard
  obtain ⟨samples, height, width, shape⟩ := (Layout.fault?_eq_none_iff holds counts).mp fits
  cases some_order : layout.ofCanonical? with
  | none =>
    have axes : b.shape ≠ [] := by
      rw [shape]
      split <;> exact nofun
    simp only [ofCanonical, some_order, pure_bind, if_neg axes]
    exact succeeds_ofBlock standard fits
  | some order =>
    obtain ⟨-, channels', -, counts', several, holds', -⟩ := orders_of_layout some_order
    obtain rfl : channels = channels' := Option.some.inj (counts.symm.trans counts')
    obtain rfl : kind = .uint8 := Option.some.inj (holds.symm.trans holds')
    rw [if_neg several] at shape
    exact succeeds_ofCanonical_of_order some_order samples shape counts (Nat.le_refl _) fun _ => rfl

/-- Among the blocks without extra channels, a layout takes those that fit it. -/
theorem succeeds_ofCanonical_iff {layout : Layout} (standard : layout.isStandard = true)
    {b : Block} (sound : b.IsSound) (exact_axes : ¬layout.HasExtraChannels b.shape) :
    Result.Succeeds (ofCanonical layout b) ↔ layout.fault? b.element b.shape = none := by
  constructor
  · rintro ⟨r, taken⟩
    have same := (canonical_eq_iff_of_ofCanonical standard sound taken).mpr exact_axes
    have fits := fault?_canonical_of_ofCanonical standard sound taken
    rwa [same] at fits
  · exact succeeds_ofCanonical_of_fits standard

/-- Blocks with extra channels are taken by the layouts that permute the channels. -/
theorem succeeds_ofCanonical_iff_of_extra {layout : Layout} (standard : layout.isStandard = true)
    {b : Block} (sound : b.IsSound) (extra : layout.HasExtraChannels b.shape) :
    Result.Succeeds (ofCanonical layout b) ↔
      layout.canonical ≠ layout ∧ b.element = .sample .uint8 := by
  obtain ⟨height, width, count, channels, shape, counts, more⟩ := extra
  have unfit : ¬layout.fault? b.element b.shape = none := fun fits =>
    Layout.not_hasExtraChannels_of_fits standard fits
      ⟨height, width, count, channels, shape, counts, more⟩
  cases some_order : layout.ofCanonical? with
  | none =>
    refine iff_of_false ?_ ?_
    · rintro ⟨r, taken⟩
      exact unfit (fault?_of_ofBlock (ofBlock_of_plain standard some_order taken))
    · rintro ⟨permuted, -⟩
      cases layout with
      | colour order => cases some_order
      | alpha order => cases some_order
      | _ => exact permuted rfl
  | some order =>
    constructor
    · rintro ⟨r, taken⟩
      constructor
      · intro canonical
        have identity := (range_iff_canonical some_order).mpr canonical
        rw [@ofCanonical_of_ordered _ b b _ some_order (if_pos identity) (by simp [shape])] at taken
        exact unfit (fault?_of_ofBlock taken)
      · obtain ⟨_, -, leading⟩ := leading_channels_of_ofCanonical some_order sound taken
        obtain ⟨_, _, -, -, kept⟩ := Block.gather_cases leading
        obtain ⟨_, _, -, counts, -, holds, -⟩ := orders_of_layout some_order
        obtain ⟨samples, -⟩ := (Layout.fault?_eq_none_iff holds counts).mp
          (fault?_canonical_of_ofCanonical standard sound taken)
        rwa [kept] at samples
    · rintro ⟨permuted, samples⟩
      exact succeeds_ofCanonical_of_order some_order samples shape counts (Nat.le_of_lt more)
        fun canonical => absurd canonical permuted

end Raster

theorem Layout.hasExtraChannels_canonical {layout : Layout} {shape : List Nat} :
    layout.canonical.HasExtraChannels shape ↔ layout.HasExtraChannels shape := by
  cases layout <;> rfl

namespace Raster

/-- A block read in canonical order keeps its shape, its elements and every sample exactly when it
has no more channels than the layout, and then a layout takes what the canonical layout takes.
Blocks of bytes with more channels are taken by the permuted layouts alone, which keep the first
channels. -/
theorem canonical_array_kept_iff {layout : Layout} (standard : layout.isStandard = true)
    {b : Block} (sound : b.IsSound) :
    (∀ r, ofCanonical layout b = .ok r →
      (r.canonical = b ↔ ¬layout.HasExtraChannels b.shape)) ∧
    (¬layout.HasExtraChannels b.shape →
      (Result.Succeeds (ofCanonical layout b) ↔
        Result.Succeeds (ofCanonical layout.canonical b))) ∧
    (layout.HasExtraChannels b.shape →
      (Result.Succeeds (ofCanonical layout b) ↔
        layout.canonical ≠ layout ∧ b.element = .sample .uint8) ∧
      ∀ r, ofCanonical layout b = .ok r → ∃ channels, layout.channels? = some channels ∧
        b.gather (List.range channels) = .ok r.canonical) := by
  refine ⟨fun r => canonical_eq_iff_of_ofCanonical standard sound, ?_, ?_⟩
  · intro exact_axes
    rw [succeeds_ofCanonical_iff standard sound exact_axes,
      succeeds_ofCanonical_iff (layout.isStandard_canonical.trans standard) sound
        (Layout.hasExtraChannels_canonical.not.mpr exact_axes),
      Layout.fault?_canonical standard]
  · intro extra
    refine ⟨succeeds_ofCanonical_iff_of_extra standard sound extra, ?_⟩
    intro r taken
    cases some_order : layout.ofCanonical? with
    | none =>
      have read := ofBlock_of_plain standard some_order taken
      exact absurd extra (Layout.not_hasExtraChannels_of_fits standard (fault?_of_ofBlock read))
    | some order => exact leading_channels_of_ofCanonical some_order sound taken

/-- Four bytes in red, green, blue and alpha make a pixel whose alpha is stored first. -/
theorem canonical_array_kept_alpha_first :
    Layout.argb.isStandard = true ∧ (Block.ofFn (.sample .uint8) [1, 1, 4] (· + 1)).IsSound ∧
      ∃ r, ofCanonical .argb (Block.ofFn (.sample .uint8) [1, 1, 4] (· + 1)) = .ok r ∧
        r.canonical = Block.ofFn (.sample .uint8) [1, 1, 4] (· + 1) := by
  have sound : (Block.ofFn (.sample .uint8) [1, 1, 4] (· + 1)).IsSound :=
    Block.isSound_ofFn (by rintro _ ⟨⟩; decide)
  have exact_axes : ¬Layout.argb.HasExtraChannels [1, 1, 4] :=
    Layout.not_hasExtraChannels_of_fits rfl
      (show Layout.argb.fault? (.sample .uint8) [1, 1, 4] = none from rfl)
  obtain ⟨kept, taken, -⟩ :=
    canonical_array_kept_iff (show Layout.argb.isStandard = true from rfl) sound
  obtain ⟨r, made⟩ := (taken exact_axes).mpr ⟨_, rfl⟩
  exact ⟨rfl, sound, r, made, (kept r made).mpr exact_axes⟩

/-- Four channels are taken as a pixel with blue first, which forgets the fourth, but not as one
with red first. -/
theorem extra_channel_forgotten :
    (Block.ofFn (.sample .uint8) [1, 1, 4] (· + 1)).IsSound ∧
      (∃ r, ofCanonical .bgr (Block.ofFn (.sample .uint8) [1, 1, 4] (· + 1)) = .ok r ∧
        r.canonical = Block.ofFn (.sample .uint8) [1, 1, 3] (· + 1)) ∧
      ofCanonical .rgb (Block.ofFn (.sample .uint8) [1, 1, 4] (· + 1)) =
        .error (.layoutMismatch (.stackedShape .rgb 3 [1, 1, 4])) := by
  refine ⟨Block.isSound_ofFn (by rintro _ ⟨⟩; decide), ⟨_, rfl, by decide +kernel⟩, rfl⟩

end Raster

end RasterEdit
