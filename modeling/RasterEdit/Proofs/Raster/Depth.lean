import RasterEdit.Proofs.Raster.Numbers
import RasterEdit.Proofs.Raster.Rescaled

/-!
# Depth of samples

Every sample becomes a byte without wrapping, greater samples never become smaller bytes, and the
ends of the range of a kind become 0 and 255. Integers of up to 32 bits become the bytes nearest to
their share of the range.
-/

set_option autoImplicit false

namespace RasterEdit

namespace Depth

/-- How the samples of a kind become bytes: the exact results follow the order of the samples, end
near 0 and 255, and are rounded to a format and then to integers. -/
structure Rescales (kind : SampleKind) (f : Format) (scaled : kind.Sample → ℚ) : Prop where
  holds : f.HoldsBytes
  settles : ∀ s, ∃ k : Nat, value? kind s = some (k : Int) ∧ Settles f (scaled s) k
  mono : ∀ {s t}, kind.AtMost s t → scaled s ≤ scaled t
  low : ∀ {s}, kind.isNaN s = true ∨ kind.AtMost s (kind.encode 0) → scaled s ≤ 1 / 4
  bound : ∀ s, scaled s ≤ 255 + 1 / 4
  full : ∀ {s}, kind.AtMost kind.full s → 255 - 1 / 4 ≤ scaled s

variable {kind : SampleKind}

/-! ## Values by kind -/

theorem value?_of_natural (natural : kind.form = .natural) (wide : kind ≠ .uint8)
    (s : kind.Sample) : value? kind s = ofRange? ((1 <<< kind.bits : Nat) - 1) s.toNat := by
  cases kind with
  | uint8 => exact absurd rfl wide
  | uint16 | wide16 | uint32 | uint64 => rfl
  | _ => cases natural

theorem value?_of_integer (integer : kind.form = .integer) (s : kind.Sample) :
    value? kind s = ofRange? ((1 <<< (kind.bits - 1) : Nat) - 1) s.toInt := by
  cases kind with
  | int8 | int16 | int32 | int64 => rfl
  | _ => cases integer

theorem value?_of_real {format : Format} (real : kind.form = .real format) (s : kind.Sample) :
    value? kind s = ofUnit? (Binary.ofBits format s.toNat) := by
  cases kind with
  | float16 | float32 | float64 => cases real; rfl
  | _ => cases real

/-- A byte holds the value of a sample. -/
theorem toNat_byte {s : kind.Sample} {k : Nat} (value : value? kind s = some (k : Int))
    (inByte : k ≤ 255) : (byte kind s).toNat = k := by
  rw [byte, value, Option.getD_some, Int.toNat_natCast, UInt8.toNat_ofNat']
  exact Nat.mod_eq_of_lt (Nat.lt_succ_of_le inByte)

/-! ## Integers -/

/-- The integer that a sample stands for; 0 for negative ones. -/
def part (kind : SampleKind) (s : kind.Sample) : Nat := ((kind.integer? s).getD 0).toNat

theorem part_of_integer? {s : kind.Sample} {n : Int} (integer : kind.integer? s = some n) :
    part kind s = n.toNat := by
  rw [part, integer, Option.getD_some]

/-- The samples of a kind stand for integers up to `top`, which `SampleKind.full` reaches. -/
structure Ranged (kind : SampleKind) (top : Nat) : Prop where
  positive : 0 < top
  small : top < 2 ^ 64
  odd : top % 2 = 1
  integer_le : ∀ s, ∃ n : Int, kind.integer? s = some n ∧ n ≤ top
  integer_zero : kind.integer? (kind.encode 0) = some 0
  integer_full : kind.integer? kind.full = some (top : Int)

namespace Ranged

variable {top : Nat} (ranged : Ranged kind top) {s t : kind.Sample}

include ranged

theorem part_le (s : kind.Sample) : part kind s ≤ top := by
  obtain ⟨n, integer, le⟩ := ranged.integer_le s
  rw [part_of_integer? integer]
  omega

theorem mono (atMost : kind.AtMost s t) : part kind s ≤ part kind t := by
  obtain ⟨n, left, -⟩ := ranged.integer_le s
  obtain ⟨m, right, -⟩ := ranged.integer_le t
  rw [part_of_integer? left, part_of_integer? right]
  exact Int.toNat_le_toNat ((SampleKind.atMost_iff left right).mp atMost)

theorem low (unseen : kind.isNaN s = true ∨ kind.AtMost s (kind.encode 0)) : part kind s = 0 := by
  obtain ⟨n, integer, -⟩ := ranged.integer_le s
  rcases unseen with unordered | atMost
  · rw [SampleKind.isNaN_of_integer? integer] at unordered
    cases unordered
  · rw [part_of_integer? integer]
    exact Int.toNat_of_nonpos ((SampleKind.atMost_iff integer ranged.integer_zero).mp atMost)

theorem full (reached : kind.AtMost kind.full s) : part kind s = top := by
  obtain ⟨n, integer, le⟩ := ranged.integer_le s
  have least := (SampleKind.atMost_iff ranged.integer_full integer).mp reached
  rw [part_of_integer? integer]
  omega

end Ranged

theorem eq_boolean (truth : kind.form = .truth) : kind = .boolean := by
  cases kind with
  | boolean => rfl
  | _ => cases truth

theorem ranged_boolean : Ranged .boolean 1 where
  positive := by decide
  small := by decide
  odd := by decide
  integer_le := fun s => ⟨s.toNat, rfl, Int.ofNat_le.mpr (Nat.lt_succ_iff.mp s.isLt)⟩
  integer_zero := rfl
  integer_full := rfl

theorem ranged_natural (natural : kind.form = .natural) : Ranged kind (2 ^ kind.bits - 1) := by
  have bits : 0 < 2 ^ kind.bits - 1 ∧ 2 ^ kind.bits - 1 < 2 ^ 64 ∧
      (2 ^ kind.bits - 1) % 2 = 1 := by
    cases kind <;> decide
  have integer := SampleKind.integer?_of_natural natural
  refine ⟨bits.1, bits.2.1, bits.2.2, ?_, ?_, ?_⟩
  · intro s
    exact ⟨s.toNat, integer s, Int.ofNat_le.mpr (Nat.le_pred_of_lt s.isLt)⟩
  · simp [integer, SampleKind.encode, natural]
  · rw [integer, SampleKind.full, natural]
    exact congrArg (fun n : Nat => some (n : Int)) BitVec.toNat_allOnes

theorem ranged_integer (signed : kind.form = .integer) :
    Ranged kind (2 ^ (kind.bits - 1) - 1) := by
  have bits : 0 < 2 ^ (kind.bits - 1) - 1 ∧ 2 ^ (kind.bits - 1) - 1 < 2 ^ 64 ∧
      (2 ^ (kind.bits - 1) - 1) % 2 = 1 := by
    cases kind with
    | int8 | int16 | int32 | int64 => decide
    | _ => cases signed
  have integer := SampleKind.integer?_of_integer signed
  have top : ((2 ^ (kind.bits - 1) - 1 : Nat) : Int) = 2 ^ (kind.bits - 1) - 1 := by
    rw [Nat.cast_pred (by positivity), Nat.cast_pow, Nat.cast_ofNat]
  refine ⟨bits.1, bits.2.1, bits.2.2, ?_, ?_, ?_⟩
  · intro s
    exact ⟨s.toInt, integer s, top ▸ Int.le_sub_one_of_lt BitVec.toInt_lt⟩
  · simp [integer, SampleKind.encode, signed]
  · rw [integer, SampleKind.full, signed, top]
    exact congrArg some BitVec.toInt_intMax

/-- How the integers of a kind become values: by a product that is rounded, or exactly. -/
inductive Reads (kind : SampleKind) (top : Nat) : Prop where
  | product (value : ∀ s, value? kind s = ofRange? top (part kind s))
  | exact (k : kind.Sample → Nat) (value : ∀ s, value? kind s = some (k s : Int))
      (share : ∀ s, k s * top = 255 * part kind s)

theorem reads_boolean : Reads .boolean 1 := by
  refine .exact (fun s => if s.toNat = 0 then 0 else 255) ?_ ?_
  · intro s
    change some (if s.toNat = 0 then (0 : Int) else 255) = _
    split <;> rfl
  · intro s
    have isBit : s.toNat < 2 := s.isLt
    change (if s.toNat = 0 then 0 else 255) * 1 = 255 * s.toNat
    split <;> omega

theorem reads_natural (natural : kind.form = .natural) : Reads kind (2 ^ kind.bits - 1) := by
  have integer := SampleKind.integer?_of_natural natural
  by_cases byte : kind = .uint8
  · subst byte
    exact .exact (fun s => s.toNat) (fun _ => rfl) (fun s => Nat.mul_comm ..)
  · refine .product fun s => ?_
    have top : ((1 <<< kind.bits : Nat) : Int) - 1 = (2 ^ kind.bits - 1 : Nat) := by
      rw [Nat.one_shiftLeft, Nat.cast_pred (by positivity)]
    rw [value?_of_natural natural byte, part_of_integer? (integer s), top, Int.toNat_natCast]

theorem reads_integer (signed : kind.form = .integer) :
    Reads kind (2 ^ (kind.bits - 1) - 1) := by
  have integer := SampleKind.integer?_of_integer signed
  refine .product fun s => ?_
  have top : ((1 <<< (kind.bits - 1) : Nat) : Int) - 1 = (2 ^ (kind.bits - 1) - 1 : Nat) := by
    rw [Nat.one_shiftLeft, Nat.cast_pred (by positivity)]
  have cut : max (s.toInt.toNat : Int) 0 = max s.toInt 0 := by omega
  rw [value?_of_integer signed, part_of_integer? (integer s), top, ofRange?, ofRange?, cut]

section Integers

variable {top : Nat}

theorem settles_whole {k : Nat} (inByte : k < 256) : Settles .binary64 k k := by
  have whole := binary64_holdsBytes.magnitude_small inByte
  refine ⟨_, binary64_holdsBytes.rounded_small inByte, ?_⟩
  rw [whole]
  exact RoundsTo.natCast k

theorem Reads.exact_le (positive : 0 < top) {k n : Nat} (within : n ≤ top)
    (share : k * top = 255 * n) : k < 256 := by
  have le : k * top ≤ 255 * top := share ▸ Nat.mul_le_mul_left 255 within
  exact Nat.lt_succ_of_le (Nat.le_of_mul_le_mul_right le positive)

theorem Ranged.rescales (ranged : Ranged kind top) (reads : Reads kind top) :
    ∃ scaled, Rescales kind .binary64 scaled := by
  have positive : (0 : ℚ) < top := by exact_mod_cast ranged.positive
  cases reads with
  | product value =>
    refine ⟨fun s => overRange top (part kind s), binary64_holdsBytes, ?_, ?_, ?_, ?_, ?_⟩
    · intro s
      rw [value s]
      exact ofRange?_settles ranged.positive ranged.small (ranged.part_le s)
    · intro s t atMost
      exact overRange_mono top (ranged.mono atMost) ((ranged.part_le t).trans_lt ranged.small)
    · intro s low
      rw [ranged.low low, overRange_zero]
      norm_num
    · intro s
      exact overRange_le ranged.positive ranged.small (ranged.part_le s)
    · intro s full
      have whole := abs_le.mp (overRange_top ranged.positive ranged.small)
      rw [ranged.full full]
      linarith
  | exact k value share =>
    have inByte (s : kind.Sample) := Reads.exact_le ranged.positive (ranged.part_le s) (share s)
    have shareRat (s : kind.Sample) : (k s : ℚ) = 255 * part kind s / top := by
      rw [eq_div_iff positive.ne']
      exact_mod_cast share s
    refine ⟨fun s => k s, binary64_holdsBytes, ?_, ?_, ?_, ?_, ?_⟩
    · intro s
      exact ⟨k s, value s, settles_whole (inByte s)⟩
    · intro s t atMost
      have le : (part kind s : ℚ) ≤ part kind t := by exact_mod_cast ranged.mono atMost
      rw [shareRat, shareRat]
      gcongr
    · intro s low
      rw [shareRat, ranged.low low]
      norm_num
    · intro s
      have le : (k s : ℚ) ≤ 255 := by exact_mod_cast Nat.le_of_lt_succ (inByte s)
      linarith
    · intro s full
      rw [shareRat, ranged.full full, mul_div_cancel_right₀ _ positive.ne']
      norm_num

/-- The byte is the integer nearest to the share that the sample has of the range. -/
theorem Ranged.nearest (ranged : Ranged kind top) (reads : Reads kind top)
    (narrow : top < 2 ^ 32) (s : kind.Sample) :
    |((byte kind s).toNat : ℚ) - 255 * part kind s / top| < 1 / 2 := by
  have positive : (0 : ℚ) < top := by exact_mod_cast ranged.positive
  cases reads with
  | product value =>
    obtain ⟨k, read, settles⟩ :=
      ofRange?_settles ranged.positive ranged.small (ranged.part_le s)
    have inByte := settles.le_of_le (m := 255) binary64_holdsBytes (by decide)
      (by exact_mod_cast overRange_le ranged.positive ranged.small (ranged.part_le s))
    rw [toNat_byte ((value s).trans read) inByte]
    exact nearest_of_settles ranged.positive narrow (ranged.part_le s) ranged.odd settles
  | exact k value share =>
    have inByte := Reads.exact_le ranged.positive (ranged.part_le s) (share s)
    have shareRat : 255 * part kind s / top = (k s : ℚ) := by
      rw [div_eq_iff positive.ne']
      exact_mod_cast (share s).symm
    rw [toNat_byte (value s) (Nat.le_of_lt_succ inByte), shareRat, sub_self, abs_zero]
    norm_num

end Integers

/-! ## Binary values -/

section Reals

variable {format : Format} (real : kind.form = .real format)

include real

theorem holdsBytes_of_real : format.HoldsBytes := by
  cases kind with
  | float16 | float32 | float64 =>
    cases real
    exact ⟨by decide, by decide⟩
  | _ => cases real

theorem ofBits_zero : Binary.ofBits format (kind.encode 0).toNat = Binary.ofInt format 0 := by
  cases kind with
  | float16 | float32 | float64 =>
    cases real
    rfl
  | _ => cases real

theorem ofBits_full : Binary.ofBits format kind.full.toNat = Binary.ofInt format 1 := by
  cases kind with
  | float16 | float32 | float64 =>
    cases real
    rfl
  | _ => cases real

theorem rescales_real : ∃ scaled, Rescales kind format scaled := by
  have holds := holdsBytes_of_real real
  have zero : (Binary.ofInt format 0).number = 0 := holds.number_small (by decide : 0 < 256)
  have one : (Binary.ofInt format 1).number = 1 :=
    (holds.number_small (by decide : 1 < 256)).trans Nat.cast_one
  have ordered {s t : kind.Sample} (atMost : kind.AtMost s t) :
      (Binary.ofBits format s.toNat).number ≤ (Binary.ofBits format t.toNat).number := by
    simp only [SampleKind.AtMost, real] at atMost
    obtain ⟨left, right⟩ := Binary.not_isNaN_of_le atMost
    exact (Binary.le_iff holds.precise left right).mp atMost
  refine ⟨fun s => max 0 (min 1 (Binary.ofBits format s.toNat).number) * 255, holds,
    ?_, ?_, ?_, ?_, ?_⟩
  · intro s
    rw [value?_of_real real]
    exact ofUnit?_settles holds _
  · intro s t atMost
    have le := ordered atMost
    gcongr
  · intro s low
    have nonpos : (Binary.ofBits format s.toNat).number ≤ 0 := by
      rcases low with unordered | atMost
      · simp only [SampleKind.isNaN, real] at unordered
        exact (Binary.number_of_isNaN unordered).le
      · have le := ordered atMost
        rwa [ofBits_zero real, zero] at le
    rw [min_eq_right (nonpos.trans zero_le_one), max_eq_left nonpos]
    norm_num
  · intro s
    have atMost : max 0 (min 1 (Binary.ofBits format s.toNat).number) ≤ 1 :=
      max_le zero_le_one (min_le_left ..)
    linarith
  · intro s full
    have le := ordered full
    rw [ofBits_full real, one] at le
    rw [min_eq_left le]
    norm_num

end Reals

/-! ## All kinds -/

theorem exists_rescales (kind : SampleKind) : ∃ f scaled, Rescales kind f scaled := by
  cases form : kind.form with
  | truth =>
    obtain rfl := eq_boolean form
    exact ⟨_, ranged_boolean.rescales reads_boolean⟩
  | natural => exact ⟨_, (ranged_natural form).rescales (reads_natural form)⟩
  | integer => exact ⟨_, (ranged_integer form).rescales (reads_integer form)⟩
  | real format => exact ⟨_, rescales_real form⟩

/-- The integers of a kind of up to 32 bits have a range below 2 ^ 32. -/
theorem exists_ranged {s : kind.Sample} {n : Int} (narrow : kind.bits ≤ 32)
    (integer : kind.integer? s = some n) :
    ∃ top, top < 2 ^ 32 ∧ Ranged kind top ∧ Reads kind top := by
  have power {m : Nat} (le : m ≤ 32) : 2 ^ m - 1 < 2 ^ 32 := by
    have bound : 2 ^ m ≤ 2 ^ 32 := Nat.pow_le_pow_right two_pos le
    omega
  cases form : kind.form with
  | truth =>
    obtain rfl := eq_boolean form
    exact ⟨1, by decide, ranged_boolean, reads_boolean⟩
  | natural => exact ⟨_, power narrow, ranged_natural form, reads_natural form⟩
  | integer => exact ⟨_, power (by omega), ranged_integer form, reads_integer form⟩
  | real format =>
    simp only [SampleKind.integer?, form] at integer
    cases integer

theorem Rescales.exists_byte {f : Format} {scaled : kind.Sample → ℚ}
    (rescales : Rescales kind f scaled) (s : kind.Sample) :
    ∃ k : Nat, value? kind s = some (k : Int) ∧ k ≤ 255 ∧ (byte kind s).toNat = k ∧
      Settles f (scaled s) k := by
  obtain ⟨k, value, settles⟩ := rescales.settles s
  have inByte : k ≤ 255 := by
    apply settles.le_of_le rescales.holds (by decide)
    exact_mod_cast rescales.bound s
  exact ⟨k, value, inByte, toNat_byte value inByte, settles⟩

theorem byte_le_byte {s t : kind.Sample} (atMost : kind.AtMost s t) :
    byte kind s ≤ byte kind t := by
  obtain ⟨f, scaled, rescales⟩ := exists_rescales kind
  obtain ⟨k, -, -, left, settles⟩ := rescales.exists_byte s
  obtain ⟨m, -, -, right, settles'⟩ := rescales.exists_byte t
  rw [UInt8.le_iff_toNat_le, left, right]
  exact settles.mono settles' (rescales.mono atMost)

theorem byte_low {s : kind.Sample}
    (low : kind.isNaN s = true ∨ kind.AtMost s (kind.encode 0)) : byte kind s = 0 := by
  obtain ⟨f, scaled, rescales⟩ := exists_rescales kind
  obtain ⟨k, -, -, read, settles⟩ := rescales.exists_byte s
  have least := rescales.low low
  have vanishes := settles.le_of_le (m := 0) rescales.holds (by decide) (by push_cast; linarith)
  rw [← UInt8.toNat_inj, read, Nat.le_zero.mp vanishes]
  rfl

theorem byte_full {s : kind.Sample} (full : kind.AtMost kind.full s) : byte kind s = 255 := by
  obtain ⟨f, scaled, rescales⟩ := exists_rescales kind
  obtain ⟨k, -, inByte, read, settles⟩ := rescales.exists_byte s
  have reached := settles.ge_of_ge (m := 255) rescales.holds (by decide)
    (by exact_mod_cast rescales.full full)
  rw [← UInt8.toNat_inj, read, Nat.le_antisymm inByte reached]
  rfl

-- Infinity is above the range, a NaN outside of it.
example : byte .float16 0x7C00#16 = 255 ∧ byte .float16 0x7E00#16 = 0 := by decide

theorem byte_nearest (narrow : kind.bits ≤ 32) {s : kind.Sample} {n : Int}
    (integer : kind.integer? s = some n) :
    ∃ top, kind.integer? kind.full = some top ∧ n ≤ top ∧
      |((byte kind s).toNat : ℚ) - 255 * max n 0 / top| < 1 / 2 := by
  obtain ⟨top, small, ranged, reads⟩ := exists_ranged narrow integer
  obtain ⟨m, same, le⟩ := ranged.integer_le s
  obtain rfl := Option.some.inj (integer.symm.trans same)
  have cut : ((max n 0 : Int) : ℚ) = part kind s := by
    rw [part_of_integer? integer, ← Int.toNat_eq_max, Int.cast_natCast]
  refine ⟨top, ranged.integer_full, le, ?_⟩
  rw [cut, Int.cast_natCast]
  exact ranged.nearest reads small s

/-- Every sample becomes an integer that fits a byte. Greater samples never become smaller bytes,
NaN and the samples up to zero become 0, and the end of the range and what is above it become 255.
Integers of up to 32 bits become the integers nearest to their share of the range. -/
theorem bytes_follow_samples (kind : SampleKind) :
    (∀ s, ∃ n : Nat, value? kind s = some (n : Int) ∧ n ≤ 255 ∧ (byte kind s).toNat = n) ∧
    (∀ s t, kind.AtMost s t → byte kind s ≤ byte kind t) ∧
    (∀ s, kind.isNaN s = true ∨ kind.AtMost s (kind.encode 0) → byte kind s = 0) ∧
    (∀ s, kind.AtMost kind.full s → byte kind s = 255) ∧
    (kind.bits ≤ 32 → ∀ s n, kind.integer? s = some n →
      ∃ top, kind.integer? kind.full = some top ∧ n ≤ top ∧
        |((byte kind s).toNat : ℚ) - 255 * max n 0 / top| < 1 / 2) := by
  refine ⟨fun s => ?_, fun s t => byte_le_byte, fun s => byte_low, fun s => byte_full,
    fun narrow s n => byte_nearest narrow⟩
  obtain ⟨f, scaled, rescales⟩ := exists_rescales kind
  obtain ⟨k, value, inByte, read, -⟩ := rescales.exists_byte s
  exact ⟨k, value, inByte, read⟩

theorem bytes_of_int16 :
    byte .int16 (BitVec.ofInt 16 (-5)) = 0 ∧ byte .int16 (BitVec.ofInt 16 32767) = 255 ∧
    byte .int16 (BitVec.ofInt 16 12345) ≤ byte .int16 (BitVec.ofInt 16 20000) ∧
    ∃ top, SampleKind.integer? .int16 (SampleKind.full .int16) = some top ∧ 12345 ≤ top ∧
      |((byte .int16 (BitVec.ofInt 16 12345)).toNat : ℚ) - 255 * max 12345 0 / top| < 1 / 2 := by
  obtain ⟨-, mono, low, full, nearest⟩ := bytes_follow_samples .int16
  refine ⟨low _ (.inr ?_), full _ ?_, mono _ _ ?_, nearest (by decide) _ 12345 rfl⟩
  · exact (by decide : (BitVec.ofInt 16 (-5)).toInt ≤ (BitVec.ofInt 16 0).toInt)
  · exact (by decide : (BitVec.intMax 16).toInt ≤ (BitVec.ofInt 16 32767).toInt)
  · exact (by decide : (BitVec.ofInt 16 12345).toInt ≤ (BitVec.ofInt 16 20000).toInt)

end Depth

end RasterEdit
