import RasterEdit.Image.Decoded
import RasterEdit.Proofs.Image.Resize
import RasterEdit.Proofs.Raster.Twin

/-!
# Round trips through pictures

A raster of a standard layout is the only raster of its layout with its picture, and the only one
with its samples in canonical order. Taking a picture as a raster and showing it again gives the
picture back.
-/

set_option autoImplicit false

namespace RasterEdit

/-! ## Blocks in another order -/

theorem Block.ofFn_congr {element : Element} {shape : List Nat} {f g : Nat → Nat}
    (same : ∀ i < elementCount shape, f i = g i) : ofFn element shape f = ofFn element shape g := by
  unfold ofFn
  congr
  funext i
  exact same i i.isLt

theorem Block.gather_of_lt {b : Block} {front order : List Nat} {last : Nat}
    (shape : b.shape = front ++ [last]) (inRange : ∀ index ∈ order, index < last) :
    b.gather order = .ok (ofFn b.element (front ++ [order.length]) fun i =>
      b.patternAt (i / order.length * last + order.getD (i % order.length) 0)) := by
  have found : order.find? (last ≤ ·) = none := by
    rw [List.find?_eq_none]
    intro index member
    simpa using inRange index member
  simp only [gather, shape, List.reverse_append, List.reverse_cons, List.reverse_nil,
    List.nil_append, List.singleton_append, found, List.reverse_reverse]

namespace Raster

section Blocks

variable {α : Type} {n : Nat}

/-- Where entry `k` of pixel `i` stands when there are `n` entries a pixel. -/
theorem channel_position {i k : Nat} (inRange : k < n) :
    (i * n + k) / n = i ∧ (i * n + k) % n = k := by
  constructor
  · rw [Nat.mul_comm, Nat.mul_add_div (by omega), Nat.div_eq_of_lt inRange, Nat.add_zero]
  · rw [Nat.mul_comm, Nat.mul_add_mod, Nat.mod_eq_of_lt inRange]

theorem channel_position_lt {i k count : Nat} (pixel : i < count) (inRange : k < n) :
    i * n + k < count * n := by
  have next := Nat.mul_le_mul_right n (Nat.succ_le_of_lt pixel)
  rw [Nat.succ_mul] at next
  omega

theorem gather_blockOf (kind : SampleKind) (pattern : α → Nat) (order : Vector (Fin n) n)
    (pixels : Grid (Vector α n)) :
    (blockOf kind true pattern pixels).gather (order.toList.map (·.val)) =
      .ok (blockOf kind true pattern (pixels.map (reorder order))) := by
  have count : (order.toList.map (·.val)).length = n := by simp
  have inRange : ∀ index ∈ order.toList.map (·.val), index < n := by
    intro index member
    obtain ⟨position, -, rfl⟩ := List.mem_map.mp member
    exact position.isLt
  have shape : (blockOf kind true pattern pixels).shape = [pixels.height, pixels.width] ++ [n] :=
    rfl
  have total : elementCount [pixels.height, pixels.width, n] =
      pixels.width * pixels.height * n := by
    simp [elementCount, Nat.mul_comm, Nat.mul_left_comm]
  rw [Block.gather_of_lt shape inRange, count]
  refine congrArg Except.ok (Block.ofFn_congr ?_)
  intro i bound
  replace bound : i < pixels.width * pixels.height * n := total ▸ bound
  have channel : i % n < n := Nat.mod_lt i (Nat.pos_of_lt_mul_left bound)
  have picked : (order.toList.map (·.val)).getD (i % n) 0 = order[i % n] := by
    simp [channel]
  have source : order[i % n].val < n := order[i % n].isLt
  obtain ⟨quotient, remainder⟩ := channel_position (i := i / n) source
  have stored : i / n * n + order[i % n].val < elementCount [pixels.height, pixels.width, n] := by
    rw [total]
    exact channel_position_lt (Nat.div_lt_of_lt_mul (by rwa [Nat.mul_comm])) source
  rw [picked]
  simp only [blockOf, ↓reduceIte]
  rw [Block.patternAt_ofFn stored]
  simp only [quotient, remainder, Grid.map, Array.getElem?_map]
  cases pixels.cells[i / n]? with
  | none => rfl
  | some pixel => simp [getElem_reorder, channel, source]

end Blocks

theorem ofCanonical_of_ordered {layout : Layout} {b ordered : Block} {order : List Nat}
    (some_order : layout.ofCanonical? = some order)
    (picked : (if order = List.range order.length then pure b else b.gather order) =
      (.ok ordered : Result Block)) (axes : ordered.shape ≠ []) :
    ofCanonical layout b = ofBlock layout ordered := by
  simp only [ofCanonical, some_order]
  split at picked
  · rename_i identity
    obtain rfl := Except.ok.inj picked
    rw [if_pos identity, pure_bind, if_neg axes]
  · rename_i permuted
    rw [if_neg permuted, picked]
    exact congrArg (ofBlock layout) (if_neg axes)

end Raster

end RasterEdit
