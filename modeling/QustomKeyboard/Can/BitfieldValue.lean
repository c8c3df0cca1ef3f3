import QustomKeyboard.Can.Bitfield

/-!
# Bit fields

`get_bitfield` reads the number in a range of bits, and `set_bitfield` writes one: over a
union of a number and its bytes, from and to which the bits are copied, whatever the byte
order of the machine is.

Reading never leaves the array (`getBitfield_eq`): a number is aligned to the end of its bytes,
so that the last bits of the range fill a byte. Writing reads the byte behind the union iff the
range does not end with a byte (`setBitfield_ok_iff`), with no effect on the result
(`setBitfield_sets`). What has been written is read, and the other ranges are kept
(`getBitfield_setBitfield`).
-/

namespace QustomKeyboard

open Theory

/-- `bits_to_bytes` -/
def bitsToBytes (bits : UInt32) : UInt16 :=
  let byteCount : UInt8 := (bits / 8).toUInt8
  (if bits % 8 ≠ 0 then byteCount + 1 else byteCount).toUInt16

/-- `find_end_bit` -/
def findEndBit (numBits : UInt16) : UInt8 :=
  let endBit := numBits % 8
  if endBit = 0 then 8 else endBit.toUInt8

/-- The offset in the destination of `copy_bits_right_aligned`. -/
def rightAlignedOffset (bitCount destinationLength : UInt16) : UInt16 :=
  UInt16.ofInt ((destinationLength.toNat - (bitsToBytes bitCount.toUInt32).toNat : ℤ) * 8 + 8 -
    (findEndBit bitCount).toNat)

/-- `copy_bits_right_aligned` -/
def copyBitsRightAligned (source : List UInt8) (sourceLength offset bitCount : UInt16)
    (destination : List UInt8) (destinationLength : UInt16) : Except Fault (Bool × List UInt8) :=
  copyBits source sourceLength offset bitCount destination destinationLength
    (rightAlignedOffset bitCount destinationLength)

/-- `bitmask` -/
def bitmask (bitCount : UInt8) : UInt64 :=
  if bitCount ≥ 64 then 0xFFFFFFFFFFFFFFFF else (1 <<< bitCount.toUInt64) - 1

/-- `bswap64` -/
def bswap64 (v : UInt64) : UInt64 := .ofNat (ofLe (toLe 8 v.toNat).reverse)

variable (isLittleEndian : Bool)

/-- `ArrayOrBytes`: the number of the bytes. -/
def wholeOf (bytes : List UInt8) : UInt64 :=
  .ofNat (ofLe (if isLittleEndian then bytes else bytes.reverse))

/-- `ArrayOrBytes`: the bytes of the number. -/
def bytesOf (whole : UInt64) : List UInt8 :=
  if isLittleEndian then toLe 8 whole.toNat else (toLe 8 whole.toNat).reverse

/-- `get_bitfield` -/
def getBitfield (source : List UInt8) (sourceLength offset bitCount : UInt16) :
    Except Fault UInt64 :=
  if bitCount > 64 ∨ bitCount < 1 then .ok 0
  else do
    let (copied, bytes) ← copyBitsRightAligned source sourceLength offset bitCount
      (List.replicate 8 0) 8
    let whole := wholeOf isLittleEndian bytes
    return if copied then (if isLittleEndian then bswap64 whole else whole) else whole

/-- `set_bitfield`, `behind` being what stands in memory behind its union: whether it has written,
    and what the destination is. -/
def setBitfield (behind : List UInt8) (value : UInt64) (offset bitCount : UInt16)
    (destination : List UInt8) (destinationLength : UInt16) : Except Fault (Bool × List UInt8) :=
  if value > bitmask bitCount.toUInt8 then .ok (false, destination)
  else
    let whole := if isLittleEndian then bswap64 value else value
    copyBits (bytesOf isLittleEndian whole ++ behind) 8 (64 - bitCount) bitCount destination
      destinationLength offset

/-! ## The union -/

variable {isLittleEndian}

theorem toNat_bitmask {bitCount : UInt8} (h : bitCount.toNat ≤ 64) :
    (bitmask bitCount).toNat = 2 ^ bitCount.toNat - 1 := by
  have hall : ∀ n < 65, (bitmask (.ofNat n)).toNat = 2 ^ n - 1 := by decide
  have := hall bitCount.toNat (Nat.lt_succ_of_le h)
  rwa [UInt8.ofNat_toNat] at this

/-- The bytes as a number, the first one being the most significant, are put together on any
    machine. -/
theorem swapped_wholeOf {bytes : List UInt8} (h : bytes.length = 8) :
    (if isLittleEndian then bswap64 (wholeOf isLittleEndian bytes)
      else wholeOf isLittleEndian bytes) = .ofNat (fieldAt bytes 0 64) := by
  have hfield := fieldAt_eq_ofLe_reverse bytes
  rw [h] at hfield
  cases isLittleEndian with
  | false =>
    rw [if_neg Bool.false_ne_true, wholeOf, if_neg Bool.false_ne_true, ← hfield]
  | true =>
    have hlt : ofLe bytes < 2 ^ 64 := by
      have := ofLe_lt bytes
      rw [h] at this
      exact this
    have hbytes := toLe_ofLe bytes
    rw [h] at hbytes
    rw [if_pos rfl, wholeOf, if_pos rfl, bswap64, UInt64.toNat_ofNat_of_lt' hlt, hbytes, ← hfield]

/-- The number is taken apart into these bytes, on any machine. -/
theorem bytesOf_swapped (value : UInt64) :
    bytesOf isLittleEndian (if isLittleEndian then bswap64 value else value) =
      (toLe 8 value.toNat).reverse := by
  cases isLittleEndian with
  | false => rw [if_neg Bool.false_ne_true, bytesOf, if_neg Bool.false_ne_true]
  | true =>
    have hlen : (toLe 8 value.toNat).reverse.length = 8 := by
      rw [List.length_reverse, length_toLe]
    have hlt : ofLe (toLe 8 value.toNat).reverse < 2 ^ 64 := by
      have := ofLe_lt (toLe 8 value.toNat).reverse
      rw [hlen] at this
      exact this
    have hbytes := toLe_ofLe (toLe 8 value.toNat).reverse
    rw [hlen] at hbytes
    rw [if_pos rfl, bytesOf, if_pos rfl, bswap64, UInt64.toNat_ofNat_of_lt' hlt, hbytes]

/-- These bytes have the number as their bits. -/
theorem fieldAt_bytes (value : UInt64) :
    fieldAt (toLe 8 value.toNat).reverse 0 64 = value.toNat := by
  have hfield := fieldAt_eq_ofLe_reverse (toLe 8 value.toNat).reverse
  rw [List.length_reverse, length_toLe, List.reverse_reverse,
    ofLe_toLe_of_lt (show value.toNat < 256 ^ 8 from value.toNat_lt)] at hfield
  exact hfield

/-- The range of `n` bits at the end of these bytes is the number, if it has no more digits. -/
theorem fieldAt_bytes_of_lt {value : UInt64} {n : ℕ} (hn : n ≤ 64) (h : value.toNat < 2 ^ n) :
    fieldAt (toLe 8 value.toNat).reverse (64 - n) n = value.toNat := by
  have := fieldAt_mod (toLe 8 value.toNat).reverse 0 (64 - n) n
  rwa [Nat.sub_add_cancel hn, fieldAt_bytes, Nat.mod_eq_of_lt h, Nat.zero_add, eq_comm] at this

/-! ## Reading -/

section

variable {source : List UInt8} {sourceLength offset bitCount : UInt16}

theorem toNat_rightAlignedOffset (hle : bitCount.toNat ≤ 64) (hpos : 0 < bitCount.toNat) :
    (rightAlignedOffset bitCount 8).toNat = 64 - bitCount.toNat := by
  have hall : ∀ n < 65, 0 < n → (rightAlignedOffset (.ofNat n) 8).toNat = 64 - n := by decide
  have := hall bitCount.toNat (Nat.lt_succ_of_le hle) hpos
  rwa [UInt16.ofNat_toNat] at this

/-- The number in the range is read, or zero, without leaving the array. -/
theorem getBitfield_eq (hs : sourceLength.toNat ≤ source.length) :
    getBitfield isLittleEndian source sourceLength offset bitCount =
      .ok (if 0 < bitCount.toNat ∧ bitCount.toNat ≤ 64 ∧
          offset.toNat + bitCount.toNat ≤ 8 * sourceLength.toNat
        then .ofNat (fieldAt source offset.toNat bitCount.toNat) else 0) := by
  have hcount : (bitCount > 64 ∨ bitCount < 1) ↔ ¬(0 < bitCount.toNat ∧ bitCount.toNat ≤ 64) := by
    rw [gt_iff_lt, UInt16.lt_iff_toNat_lt, UInt16.lt_iff_toNat_lt]
    change 64 < _ ∨ _ < 1 ↔ _
    omega
  rw [getBitfield]
  by_cases h : 0 < bitCount.toNat ∧ bitCount.toNat ≤ 64
  · obtain ⟨hpos, hle⟩ := h
    have halign := toNat_rightAlignedOffset hle hpos
    rw [if_neg (by rw [hcount]; exact not_not.2 ⟨hpos, hle⟩), copyBitsRightAligned]
    by_cases hfit : offset.toNat + bitCount.toNat ≤ 8 * sourceLength.toNat
    · have hrange : RangeFits sourceLength offset bitCount 8 (rightAlignedOffset bitCount 8) := by
        refine ⟨hpos, hfit, ?_⟩
        rw [halign]
        change _ ≤ 64
        omega
      -- The range ends with a byte of the destination.
      have hread : readEnd offset.toNat bitCount.toNat (rightAlignedOffset bitCount 8).toNat ≤
          source.length := by
        rw [halign, readEnd]
        split_ifs <;> omega
      obtain ⟨bytes, hcopy, hbits⟩ := exists_copyBits hrange hs
        (show (8 : UInt16).toNat ≤ (List.replicate 8 (0 : UInt8)).length from le_rfl) hread
      have hlen : bytes.length = 8 := hbits.length_eq
      have hzeros : ∀ k < 64 - bitCount.toNat, bitAt bytes (0 + k) = false := fun k hk => by
        rw [Nat.zero_add, hbits.kept k (Or.inl (by omega)), bitAt, List.getD_eq_getElem?_getD,
          List.getElem?_replicate, if_pos (by omega), Option.getD_some, byteBit_zero]
      have hfield : fieldAt bytes 0 64 = fieldAt source offset.toNat bitCount.toNat := by
        rw [← hbits.fieldAt_eq, halign, show 64 = 64 - bitCount.toNat + bitCount.toNat by omega,
          fieldAt_of_zeros hzeros]
        congr 1
        omega
      rw [hcopy, if_pos ⟨hpos, hle, hfit⟩, ← hfield, ← swapped_wholeOf hlen]
      rfl
    · rw [copyBits_of_not_fits fun h => hfit h.2.1, if_neg fun h => hfit h.2.2]
      cases isLittleEndian <;> rfl
  · rw [if_pos (hcount.2 h), if_neg fun h' => h ⟨h'.1, h'.2.1⟩]

/-- `get_bitfield` reads the number in the range, and zero if the range is empty, too long or not
    within the array, which it never leaves, whatever the byte order is. -/
theorem getBitfield_reads (hs : sourceLength.toNat ≤ source.length) :
    ∃ value, (∀ isLittleEndian,
        getBitfield isLittleEndian source sourceLength offset bitCount = .ok value) ∧
      (0 < bitCount.toNat → bitCount.toNat ≤ 64 →
        offset.toNat + bitCount.toNat ≤ 8 * sourceLength.toNat →
        value.toNat = fieldAt source offset.toNat bitCount.toNat) ∧
      (bitCount.toNat = 0 ∨ 64 < bitCount.toNat ∨
        8 * sourceLength.toNat < offset.toNat + bitCount.toNat → value = 0) := by
  refine ⟨_, fun le => getBitfield_eq hs, fun h₀ h₁ h₂ => ?_, fun h => if_neg (by omega)⟩
  rw [if_pos ⟨h₀, h₁, h₂⟩, UInt64.toNat_ofNat_of_lt']
  exact (fieldAt_lt _ _ _).trans_le (Nat.pow_le_pow_right (by decide) h₁)

theorem getBitfield_reads_frame :
    ∃ value, (∀ isLittleEndian, getBitfield isLittleEndian [0x12, 0x34] 2 4 8 = .ok value) ∧
      (0 < 8 → 8 ≤ 64 → 4 + 8 ≤ 8 * 2 → value.toNat = fieldAt [0x12, 0x34] 4 8) ∧
      (8 = 0 ∨ 64 < 8 ∨ 8 * 2 < 4 + 8 → value = 0) :=
  getBitfield_reads (by decide)

end

/-! ## Writing -/

/-- The value has no more digits than the range, which is not empty and within the array. -/
def ValueFits (value : UInt64) (offset bitCount destinationLength : UInt16) : Prop :=
  0 < bitCount.toNat ∧ bitCount.toNat ≤ 64 ∧
    offset.toNat + bitCount.toNat ≤ 8 * destinationLength.toNat ∧
    value.toNat < 2 ^ bitCount.toNat

instance (value : UInt64) (offset bitCount destinationLength : UInt16) :
    Decidable (ValueFits value offset bitCount destinationLength) :=
  inferInstanceAs (Decidable (_ ∧ _))

/-- What `set_bitfield` writes: the digits of the value in the range, and nothing else. -/
structure FieldSet (value : UInt64) (offset bitCount : ℕ)
    (destination destination' : List UInt8) : Prop where
  length_eq : destination'.length = destination.length
  fieldAt_eq : fieldAt destination' offset bitCount = value.toNat
  kept : ∀ i, i < offset ∨ offset + bitCount ≤ i → bitAt destination' i = bitAt destination i

section

variable {value : UInt64} {offset bitCount destinationLength : UInt16}
  {behind destination : List UInt8}

theorem toNat_sourceOffset (h : bitCount.toNat ≤ 64) :
    (64 - bitCount).toNat = 64 - bitCount.toNat := by
  rw [UInt16.toNat_sub_of_le]
  · rfl
  · rw [UInt16.le_iff_toNat_le]
    exact h

/-- The mask is that of the value, where the range is one of the union. -/
theorem rangeFits_iff (hmask : ¬value > bitmask bitCount.toUInt8) :
    RangeFits 8 (64 - bitCount) bitCount destinationLength offset ↔
      ValueFits value offset bitCount destinationLength := by
  rw [RangeFits, ValueFits]
  change 0 < bitCount.toNat ∧ (64 - bitCount).toNat + bitCount.toNat ≤ 64 ∧ _ ↔ _
  by_cases hle : bitCount.toNat ≤ 64
  · have hcount : bitCount.toUInt8.toNat = bitCount.toNat := by
      rw [UInt16.toNat_toUInt8]
      omega
    rw [gt_iff_lt, UInt64.lt_iff_toNat_lt, toNat_bitmask (by rw [hcount]; exact hle),
      hcount] at hmask
    have hpow : 0 < 2 ^ bitCount.toNat := Nat.two_pow_pos _
    rw [toNat_sourceOffset hle]
    exact ⟨fun ⟨h₀, _, h₁⟩ => ⟨h₀, hle, h₁, by omega⟩, fun ⟨h₀, _, h₁, _⟩ => ⟨h₀, by omega, h₁⟩⟩
  · -- The offset has wrapped around.
    have hwrap : (64 - bitCount).toNat + bitCount.toNat = 2 ^ 16 + 64 := by
      have hsub := UInt16.toNat_sub 64 bitCount
      have hlt := bitCount.toNat_lt
      change _ = (2 ^ 16 - bitCount.toNat + 64) % 2 ^ 16 at hsub
      omega
    rw [hwrap]
    exact iff_of_false (fun h => absurd h.2.1 (by decide)) fun h => hle h.2.1

theorem not_valueFits_of_lt (hmask : value > bitmask bitCount.toUInt8) :
    ¬ValueFits value offset bitCount destinationLength := by
  rintro ⟨-, hle, -, hlt⟩
  have hcount : bitCount.toUInt8.toNat = bitCount.toNat := by
    rw [UInt16.toNat_toUInt8]
    omega
  rw [gt_iff_lt, UInt64.lt_iff_toNat_lt, toNat_bitmask (by rw [hcount]; exact hle), hcount] at hmask
  omega

/-- A value that does not fit is not written. -/
theorem setBitfield_of_not_fits (h : ¬ValueFits value offset bitCount destinationLength) :
    setBitfield isLittleEndian behind value offset bitCount destination destinationLength =
      .ok (false, destination) := by
  rw [setBitfield]
  by_cases hmask : value > bitmask bitCount.toUInt8
  · rw [if_pos hmask]
  · rw [if_neg hmask]
    exact copyBits_of_not_fits fun hrange => h ((rangeFits_iff hmask).1 hrange)

/-- The union is read up to the byte behind it iff the range does not end with a byte. -/
theorem readEnd_union (hpos : 0 < bitCount.toNat) (hle : bitCount.toNat ≤ 64) :
    readEnd (64 - bitCount).toNat bitCount.toNat offset.toNat =
      if (offset.toNat + bitCount.toNat) % 8 = 0 then 8 else 9 := by
  rw [toNat_sourceOffset hle, readEnd]
  split_ifs <;> omega

theorem length_union :
    (bytesOf isLittleEndian (if isLittleEndian then bswap64 value else value) ++ behind).length =
      8 + behind.length := by
  rw [bytesOf_swapped, List.length_append, List.length_reverse, length_toLe]

/-- A value that fits is written, if the union can be read. -/
theorem exists_setBitfield (isLittleEndian : Bool) (behind : List UInt8)
    (h : ValueFits value offset bitCount destinationLength)
    (hd : destinationLength.toNat ≤ destination.length)
    (hread : (offset.toNat + bitCount.toNat) % 8 = 0 ∨ behind ≠ []) :
    ∃ destination', setBitfield isLittleEndian behind value offset bitCount destination
        destinationLength = .ok (true, destination') ∧
      FieldSet value offset.toNat bitCount.toNat destination destination' := by
  have hmask : ¬value > bitmask bitCount.toUInt8 := fun hlt => not_valueFits_of_lt hlt h
  have hrange : RangeFits 8 (64 - bitCount) bitCount destinationLength offset :=
    (rangeFits_iff hmask).2 h
  obtain ⟨hpos, hle, -, hlt⟩ := h
  have hbehind : (offset.toNat + bitCount.toNat) % 8 = 0 ∨ 0 < behind.length :=
    hread.imp_right List.length_pos_iff.2
  obtain ⟨destination', hcopy, hbits⟩ := exists_copyBits hrange
    (show (8 : UInt16).toNat ≤ (bytesOf isLittleEndian
      (if isLittleEndian then bswap64 value else value) ++ behind).length by
        rw [length_union]; exact Nat.le_add_right _ _) hd
    (by rw [readEnd_union hpos hle, length_union]; split_ifs <;> omega)
  have hvalue : ∀ k < bitCount.toNat, bitAt ((toLe 8 value.toNat).reverse ++ behind)
      (64 - bitCount.toNat + k) = bitAt (toLe 8 value.toNat).reverse (64 - bitCount.toNat + k) :=
    fun k hk => bitAt_append_left (by rw [List.length_reverse, length_toLe]; omega) _
  refine ⟨destination', ?_, hbits.length_eq, ?_, hbits.kept⟩
  · rw [setBitfield, if_neg hmask]
    exact hcopy
  · rw [hbits.fieldAt_eq, bytesOf_swapped, toNat_sourceOffset hle, fieldAt_congr hvalue,
      fieldAt_bytes_of_lt hle hlt]

/-- The union can be read, if a value that fits has been written. -/
theorem mod_eq_zero_of_setBitfield {r : Bool × List UInt8}
    (hr : setBitfield isLittleEndian [] value offset bitCount destination destinationLength = .ok r)
    (h : ValueFits value offset bitCount destinationLength)
    (hd : destinationLength.toNat ≤ destination.length) :
    (offset.toNat + bitCount.toNat) % 8 = 0 := by
  have hmask : ¬value > bitmask bitCount.toUInt8 := fun hlt => not_valueFits_of_lt hlt h
  rw [setBitfield, if_neg hmask] at hr
  have hread := (exists_copyBits_iff ((rangeFits_iff hmask).2 h)
    (by rw [length_union]; exact Nat.le_add_right _ _) hd).1 ⟨r, hr⟩
  rw [readEnd_union h.1 h.2.1, length_union] at hread
  by_contra hmod
  rw [if_neg hmod] at hread
  exact absurd hread (by decide)

/-- The digits in the range and the bits outside of it determine the result. -/
theorem FieldSet.unique {o n : ℕ} {destination' destination'' : List UInt8}
    (h : FieldSet value o n destination destination')
    (h' : FieldSet value o n destination destination'') : destination' = destination'' := by
  refine bitAt_ext (h.length_eq.trans h'.length_eq.symm) fun i => ?_
  by_cases hi : i < o ∨ o + n ≤ i
  · rw [h.kept i hi, h'.kept i hi]
  · exact bitAt_eq_of_fieldAt_eq (h.fieldAt_eq.trans h'.fieldAt_eq.symm) (by omega) (by omega)

/-- `set_bitfield` writes a value that fits, and leaves the destination for another one. Neither
    the byte order nor what stands behind its union makes a difference. -/
theorem setBitfield_sets (hd : destinationLength.toNat ≤ destination.length) :
    ∃ destination', (∀ isLittleEndian behind, behind ≠ [] →
        setBitfield isLittleEndian behind value offset bitCount destination destinationLength =
          .ok (decide (ValueFits value offset bitCount destinationLength), destination')) ∧
      (ValueFits value offset bitCount destinationLength →
        FieldSet value offset.toNat bitCount.toNat destination destination') ∧
      (¬ValueFits value offset bitCount destinationLength → destination' = destination) := by
  by_cases h : ValueFits value offset bitCount destinationLength
  · obtain ⟨destination', -, hset⟩ := exists_setBitfield true [0] h hd
      (Or.inr (List.cons_ne_nil _ _))
    refine ⟨destination', fun le behind hbehind => ?_, fun _ => hset, fun hn => absurd h hn⟩
    obtain ⟨destination'', heq, hset'⟩ := exists_setBitfield le behind h hd
      (Or.inr hbehind)
    rw [heq, hset'.unique hset, decide_eq_true h]
  · refine ⟨destination, fun le behind _ => ?_, fun hf => absurd hf h, fun _ => rfl⟩
    rw [setBitfield_of_not_fits h, decide_eq_false h]

theorem setBitfield_sets_frame :
    ∃ destination', (∀ isLittleEndian behind, behind ≠ [] →
        setBitfield isLittleEndian behind 42 14 6 [0, 0, 0] 3 =
          .ok (decide (ValueFits 42 14 6 3), destination')) ∧
      (ValueFits 42 14 6 3 → FieldSet 42 14 6 [0, 0, 0] destination') ∧
      (¬ValueFits 42 14 6 3 → destination' = [0, 0, 0]) :=
  setBitfield_sets (by decide)

/-- `set_bitfield` stays within its union iff the value does not fit or the range ends with a
    byte. -/
theorem setBitfield_ok_iff (hd : destinationLength.toNat ≤ destination.length) :
    (∃ r, setBitfield isLittleEndian [] value offset bitCount destination destinationLength =
      .ok r) ↔
      (ValueFits value offset bitCount destinationLength →
        (offset.toNat + bitCount.toNat) % 8 = 0) := by
  constructor
  · rintro ⟨r, hr⟩ h
    exact mod_eq_zero_of_setBitfield hr h hd
  · intro h
    by_cases hfit : ValueFits value offset bitCount destinationLength
    · obtain ⟨destination', hr, -⟩ := exists_setBitfield isLittleEndian [] hfit hd
        (Or.inl (h hfit))
      exact ⟨_, hr⟩
    · exact ⟨_, setBitfield_of_not_fits hfit⟩

/-- Writing a single bit, such as a `bool` of a frame, reads behind the union. -/
theorem setBitfield_ok_iff_bool :
    (∃ r, setBitfield true [] 1 0 1 [0, 0, 0, 0, 0, 0, 0, 0] 8 = .ok r) ↔
      (ValueFits 1 0 1 8 → ((0 : UInt16).toNat + (1 : UInt16).toNat) % 8 = 0) :=
  setBitfield_ok_iff (by decide)

/-- What has been written is read, and so is what there was in the ranges beside it. -/
theorem getBitfield_setBitfield {destination' : List UInt8}
    (hd : destinationLength.toNat ≤ destination.length)
    (h : setBitfield isLittleEndian behind value offset bitCount destination destinationLength =
      .ok (true, destination')) :
    getBitfield isLittleEndian destination' destinationLength offset bitCount = .ok value ∧
      ∀ o n : UInt16, o.toNat + n.toNat ≤ offset.toNat ∨
          offset.toNat + bitCount.toNat ≤ o.toNat →
        getBitfield isLittleEndian destination' destinationLength o n =
          getBitfield isLittleEndian destination destinationLength o n := by
  have hfit : ValueFits value offset bitCount destinationLength := by
    by_contra hn
    rw [setBitfield_of_not_fits hn] at h
    cases h
  have hread : (offset.toNat + bitCount.toNat) % 8 = 0 ∨ behind ≠ [] := by
    rw [or_iff_not_imp_right, not_not]
    rintro rfl
    exact mod_eq_zero_of_setBitfield h hfit hd
  obtain ⟨_, heq, hset⟩ := exists_setBitfield isLittleEndian behind hfit hd hread
  rw [h, Except.ok.injEq, Prod.mk.injEq] at heq
  obtain ⟨-, rfl⟩ := heq
  have hd' : destinationLength.toNat ≤ destination'.length := by
    rwa [hset.length_eq]
  refine ⟨?_, fun o n hdisjoint => ?_⟩
  · rw [getBitfield_eq hd', if_pos ⟨hfit.1, hfit.2.1, hfit.2.2.1⟩, hset.fieldAt_eq,
      UInt64.ofNat_toNat]
  · rw [getBitfield_eq hd', getBitfield_eq hd,
      fieldAt_congr fun k hk => hset.kept (o.toNat + k) (by omega)]

theorem getBitfield_setBitfield_frame :
    getBitfield true [0, 2, 0xA0] 3 14 6 = .ok 42 ∧
      ∀ o n : UInt16, o.toNat + n.toNat ≤ 14 ∨ 14 + 6 ≤ o.toNat →
        getBitfield true [0, 2, 0xA0] 3 o n = getBitfield true [0, 0, 0] 3 o n :=
  getBitfield_setBitfield (by decide)
    (show setBitfield true [0] 42 14 6 [0, 0, 0] 3 = .ok (true, [0, 2, 0xA0]) by decide)

end

end QustomKeyboard
