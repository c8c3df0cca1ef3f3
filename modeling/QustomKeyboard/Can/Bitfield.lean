import QustomKeyboard.Theory.BitArray
import QustomKeyboard.Theory.Loop
import QustomKeyboard.Theory.Memory

/-!
# Copying bits

`copy_bits` copies a range of bits between two arrays of bytes. A range is copied iff it is
not empty and fits in both arrays, and then exactly its bits are (`copyBits_copies`).

If the ranges stand differently in their bytes, a byte of the destination is put together
from two of the source, which are both read even where one of them has all the bits. How far
the source is read is `readEnd`: up to one byte more than the array has, which does not show
in what is copied. It is known when the array is left (`copyBits_ok_iff`).
-/

namespace QustomKeyboard

open Theory

/-- `reverse_mask` -/
def reverseMask : List UInt8 := [0x00, 0x80, 0xc0, 0xe0, 0xf0, 0xf8, 0xfc, 0xfe, 0xff]

/-- `reverse_mask_xor` -/
def reverseMaskXor : List UInt8 := [0xff, 0x7f, 0x3f, 0x1f, 0x0f, 0x07, 0x03, 0x01, 0x00]

/-- `*p &= m`, of the byte `i`. -/
def andAt (p : List UInt8) (i : ℕ) (m : UInt8) : Except Fault (List UInt8) := do
  storeAt p i ((← loadAt p i) &&& m)

/-- `*p |= c`, of the byte `i`. -/
def orAt (p : List UInt8) (i : ℕ) (c : UInt8) : Except Fault (List UInt8) := do
  storeAt p i ((← loadAt p i) ||| c)

/-- `PREPARE_FIRST_COPY`: what becomes of the destination, of `bit_count` and of `c`. -/
def prepareFirstCopy (destination : List UInt8) (dp offsetModulo bitCount : ℕ) (c : UInt8) :
    Except Fault (List UInt8 × ℕ × UInt8) := do
  if bitCount ≥ 8 - offsetModulo then
    let destination ← andAt destination dp (← loadAt reverseMask offsetModulo)
    return (destination, bitCount - (8 - offsetModulo), c)
  else
    let mask := (← loadAt reverseMask offsetModulo) |||
      (← loadAt reverseMaskXor (offsetModulo + bitCount))
    let destination ← andAt destination dp mask
    return (destination, 0, c &&& (← loadAt reverseMask (offsetModulo + bitCount)))

/-- `PREPARE_FIRST_COPY` and `*destination++ |= c` -/
def copyFirst (destination : List UInt8) (dp offsetModulo bitCount : ℕ) (c : UInt8) :
    Except Fault (List UInt8 × ℕ) := do
  let (destination, bitCount, c) ← prepareFirstCopy destination dp offsetModulo bitCount c
  return (← orAt destination dp c, bitCount)

/-- `*destination &= reverse_mask_xor[bit_count_modulo]` and `*destination |= c` -/
def copyLast (destination : List UInt8) (dp bitCountModulo : ℕ) (c : UInt8) :
    Except Fault (List UInt8) := do
  let destination ← andAt destination dp (← loadAt reverseMaskXor bitCountModulo)
  orAt destination dp c

/-- `copy_bits` from the beginning of a byte to the beginning of a byte. -/
def copyBytes (source : List UInt8) (sp bitCount : ℕ) (destination : List UInt8) (dp : ℕ) :
    Except Fault (List UInt8) := do
  let byteLen := bitCount / 8
  let bitCountModulo := bitCount % 8
  let destination ← (if byteLen > 0 then memcpy destination dp source sp byteLen
    else .ok destination)
  if bitCountModulo > 0 then
    let c := (← loadAt reverseMask bitCountModulo) &&& (← loadAt source (sp + byteLen))
    copyLast destination (dp + byteLen) bitCountModulo c
  else return destination

/-- `copy_bits`, if the offsets are the same in their bytes. -/
def copyAligned (source : List UInt8) (sp offsetModulo bitCount : ℕ) (destination : List UInt8)
    (dp : ℕ) : Except Fault (List UInt8) := do
  if offsetModulo > 0 then
    let c := (← loadAt reverseMaskXor offsetModulo) &&& (← loadAt source sp)
    let (destination, bitCount) ← copyFirst destination dp offsetModulo bitCount c
    copyBytes source (sp + 1) bitCount destination (dp + 1)
  else copyBytes source sp bitCount destination dp

/-- `*source++ << left | *source >> right` -/
def shiftedByte (source : List UInt8) (sp left right : ℕ) : Except Fault UInt8 := do
  let c := (← loadAt source sp) <<< UInt8.ofNat left
  return c ||| (← loadAt source (sp + 1)) >>> UInt8.ofNat right

/-- `copy_bits` to the beginning of a byte, by shifting the source. -/
def copyShiftedBytes (source : List UInt8) (sp left right bitCount : ℕ) (destination : List UInt8)
    (dp : ℕ) : Except Fault (List UInt8) := do
  -- Middle: copy with only shifting the source.
  let byteLen := bitCount / 8
  let destination ← forLoop (fun i destination => do
    storeAt destination (dp + i) (← shiftedByte source (sp + i) left right)) byteLen 0 destination
  -- End: copy the remaining bits.
  let bitCountModulo := bitCount % 8
  if bitCountModulo > 0 then
    let c := (← shiftedByte source (sp + byteLen) left right) &&&
      (← loadAt reverseMask bitCountModulo)
    copyLast destination (dp + byteLen) bitCountModulo c
  else return destination

/-- `copy_bits`, if the offsets are different in their bytes. -/
def copyShifted (source : List UInt8) (sp sourceModulo bitCount : ℕ) (destination : List UInt8)
    (dp destinationModulo : ℕ) : Except Fault (List UInt8) := do
  -- Begin: line things up on the destination.
  if sourceModulo > destinationModulo then
    let left := sourceModulo - destinationModulo
    let right := 8 - left
    let c := (← shiftedByte source sp left right) &&& (← loadAt reverseMaskXor destinationModulo)
    let (destination, bitCount) ← copyFirst destination dp destinationModulo bitCount c
    copyShiftedBytes source (sp + 1) left right bitCount destination (dp + 1)
  else
    let right := destinationModulo - sourceModulo
    let left := 8 - right
    let c := (← loadAt source sp) >>> UInt8.ofNat right &&&
      (← loadAt reverseMaskXor destinationModulo)
    let (destination, bitCount) ← copyFirst destination dp destinationModulo bitCount c
    copyShiftedBytes source sp left right bitCount destination (dp + 1)

/-- `copy_bits`: whether it has copied, and what the destination is. -/
def copyBits (source : List UInt8) (sourceLength sourceOffset bitCount : UInt16)
    (destination : List UInt8) (destinationLength destinationOffset : UInt16) :
    Except Fault (Bool × List UInt8) :=
  if bitCount < 1 then .ok (false, destination)
  else if sourceOffset.toNat + bitCount.toNat > sourceLength.toNat * 8 ∨
      destinationOffset.toNat + bitCount.toNat > destinationLength.toNat * 8 then
    .ok (false, destination)
  else do
    let sp := sourceOffset.toNat / 8
    let dp := destinationOffset.toNat / 8
    let sourceModulo := sourceOffset.toNat % 8
    let destinationModulo := destinationOffset.toNat % 8
    if sourceModulo = destinationModulo then
      return (true, ← copyAligned source sp sourceModulo bitCount.toNat destination dp)
    else
      return (true, ← copyShifted source sp sourceModulo bitCount.toNat destination dp
        destinationModulo)

/-! ## Bytes of the destination -/

theorem byteBit_reverseMask {k j : ℕ} (hk : k ≤ 8) (hj : j < 8) :
    byteBit (reverseMask.getD k 0) j = decide (j < k) := by
  have h : ∀ k < 9, ∀ j < 8, byteBit (reverseMask.getD k 0) j = decide (j < k) := by decide
  exact h k (by omega) j hj

theorem byteBit_reverseMaskXor {k j : ℕ} (hk : k ≤ 8) (hj : j < 8) :
    byteBit (reverseMaskXor.getD k 0) j = decide (k ≤ j) := by
  have h : ∀ k < 9, ∀ j < 8, byteBit (reverseMaskXor.getD k 0) j = decide (k ≤ j) := by decide
  exact h k (by omega) j hj

theorem loadAt_reverseMask {k : ℕ} (hk : k ≤ 8) :
    loadAt reverseMask k = .ok (reverseMask.getD k 0) :=
  loadAt_of_lt (show k < 9 by omega) 0

theorem loadAt_reverseMaskXor {k : ℕ} (hk : k ≤ 8) :
    loadAt reverseMaskXor k = .ok (reverseMaskXor.getD k 0) :=
  loadAt_of_lt (show k < 9 by omega) 0

section

variable {src dst : List UInt8} {s dp sp : ℕ}

theorem andAt_of_lt (h : dp < dst.length) (m : UInt8) :
    andAt dst dp m = .ok (dst.set dp (dst.getD dp 0 &&& m)) := by
  rw [andAt, loadAt_of_lt h 0]
  exact storeAt_of_lt h _

/-- A byte that is masked, and then completed. -/
theorem orAt_set (h : dp < dst.length) (x c : UInt8) :
    orAt (dst.set dp x) dp c = .ok (dst.set dp (x ||| c)) := by
  have h' : dp < (dst.set dp x).length := by rwa [List.length_set]
  have hget : (dst.set dp x).getD dp 0 = x := by
    rw [List.getD_eq_getElem _ _ h', List.getElem_set_self]
  rw [orAt, loadAt_of_lt h' 0, hget]
  exact (storeAt_of_lt h' _).trans (by rw [List.set_set])

theorem copyFirst_of_lt {dm n : ℕ} (hdp : dp < dst.length) (hn : n < 8 - dm) (c : UInt8) :
    copyFirst dst dp dm n c =
      .ok (dst.set dp (dst.getD dp 0 &&&
          (reverseMask.getD dm 0 ||| reverseMaskXor.getD (dm + n) 0) |||
        c &&& reverseMask.getD (dm + n) 0), 0) := by
  have hprepare : prepareFirstCopy dst dp dm n c =
      .ok (dst.set dp (dst.getD dp 0 &&&
          (reverseMask.getD dm 0 ||| reverseMaskXor.getD (dm + n) 0)),
        0, c &&& reverseMask.getD (dm + n) 0) := by
    rw [prepareFirstCopy, if_neg (Nat.not_le.2 hn), loadAt_reverseMask (by omega),
      loadAt_reverseMaskXor (by omega), loadAt_reverseMask (by omega)]
    change (andAt dst dp _).bind _ = _
    rw [andAt_of_lt hdp]
    rfl
  rw [copyFirst, hprepare]
  change (orAt _ dp _).bind _ = _
  rw [orAt_set hdp]
  rfl

theorem copyFirst_of_le {dm n : ℕ} (hdp : dp < dst.length) (hdm : dm < 8) (hn : 8 - dm ≤ n)
    (c : UInt8) :
    copyFirst dst dp dm n c =
      .ok (dst.set dp (dst.getD dp 0 &&& reverseMask.getD dm 0 ||| c), n - (8 - dm)) := by
  have hprepare : prepareFirstCopy dst dp dm n c =
      .ok (dst.set dp (dst.getD dp 0 &&& reverseMask.getD dm 0), n - (8 - dm), c) := by
    rw [prepareFirstCopy, if_pos hn, loadAt_reverseMask (by omega)]
    change (andAt dst dp _).bind _ = _
    rw [andAt_of_lt hdp]
    rfl
  rw [copyFirst, hprepare]
  change (orAt _ dp _).bind _ = _
  rw [orAt_set hdp]
  rfl

/-- What is left to copy after the first byte. -/
theorem eq_of_copyFirst {dm n m : ℕ} {c : UInt8} {dst' : List UInt8} (hdp : dp < dst.length)
    (hdm : dm < 8) (h : copyFirst dst dp dm n c = .ok (dst', m)) : m = n - (8 - dm) := by
  rcases Nat.lt_or_ge n (8 - dm) with hn | hn
  · rw [copyFirst_of_lt hdp hn, Except.ok.injEq, Prod.mk.injEq] at h
    rw [← h.2, Nat.sub_eq_zero_of_le hn.le]
  · rw [copyFirst_of_le hdp hdm hn, Except.ok.injEq, Prod.mk.injEq] at h
    exact h.2.symm

theorem copyLast_eq {m : ℕ} (hdp : dp < dst.length) (hm : m ≤ 8) (c : UInt8) :
    copyLast dst dp m c = .ok (dst.set dp (dst.getD dp 0 &&& reverseMaskXor.getD m 0 ||| c)) := by
  rw [copyLast, loadAt_reverseMaskXor hm]
  change (andAt dst dp _).bind _ = _
  rw [andAt_of_lt hdp]
  exact orAt_set hdp _ _

/-- The first byte of the destination takes the bits that fit in it, `c` having them at their
    place. -/
theorem exists_copyFirst (src : List UInt8) (s n : ℕ) {dm : ℕ} (c : UInt8)
    (hdp : dp < dst.length) (hdm : dm < 8)
    (hc : ∀ k < 8, byteBit c k = (decide (dm ≤ k) && bitAt src (s + (k - dm)))) :
    ∃ dst', copyFirst dst dp dm n c = .ok (dst', n - (8 - dm)) ∧
      BitsCopied src s (min n (8 - dm)) dst (8 * dp + dm) dst' := by
  rcases Nat.lt_or_ge n (8 - dm) with hn | hn
  · rw [Nat.min_eq_left hn.le, Nat.sub_eq_zero_of_le hn.le]
    refine ⟨_, copyFirst_of_lt hdp hn c,
      BitsCopied.set hdp (by omega) (fun k hk => ?_) fun k hk hout => ?_⟩
    · rw [byteBit_or, byteBit_and, byteBit_or, byteBit_and, byteBit_reverseMask (by omega)
        (by omega), byteBit_reverseMaskXor (by omega) (by omega), byteBit_reverseMask (by omega)
        (by omega), hc _ (by omega), decide_eq_false (by omega), decide_eq_false (by omega),
        decide_eq_true (by omega), decide_eq_true (by omega), Nat.add_sub_cancel_left]
      simp
    · rw [byteBit_or, byteBit_and, byteBit_or, byteBit_and, byteBit_reverseMask (by omega) hk,
        byteBit_reverseMaskXor (by omega) hk, byteBit_reverseMask (by omega) hk, hc _ hk,
        bitAt_eq _ _ hk]
      rcases hout with hout | hout
      · simp [decide_eq_true hout, decide_eq_false (Nat.not_le.2 hout)]
      · simp [decide_eq_true hout, decide_eq_false (Nat.not_lt.2 hout)]
  · rw [Nat.min_eq_right hn]
    refine ⟨_, copyFirst_of_le hdp hdm hn c,
      BitsCopied.set hdp (by omega) (fun k hk => ?_) fun k hk hout => ?_⟩
    · rw [byteBit_or, byteBit_and, byteBit_reverseMask (by omega) (by omega), hc _ (by omega),
        decide_eq_false (by omega), decide_eq_true (by omega), Nat.add_sub_cancel_left]
      simp
    · rw [byteBit_or, byteBit_and, byteBit_reverseMask (by omega) hk, hc _ hk, bitAt_eq _ _ hk,
        decide_eq_true (show k < dm by omega), decide_eq_false (by omega)]
      simp

/-- The rest of the bits goes to the front of a byte, `c` having them there. -/
theorem exists_copyLast (src : List UInt8) (s : ℕ) {m : ℕ} (c : UInt8)
    (hdp : dp < dst.length) (hm : m ≤ 8)
    (hc : ∀ k < 8, byteBit c k = (decide (k < m) && bitAt src (s + k))) :
    ∃ dst', copyLast dst dp m c = .ok dst' ∧ BitsCopied src s m dst (8 * dp) dst' := by
  refine ⟨_, copyLast_eq hdp hm c,
    BitsCopied.set (a := 0) hdp (by omega) (fun k hk => ?_) fun k hk hout => ?_⟩
  · rw [Nat.zero_add, byteBit_or, byteBit_and, byteBit_reverseMaskXor hm (by omega),
      hc _ (by omega), decide_eq_false (by omega), decide_eq_true hk]
    simp
  · rw [byteBit_or, byteBit_and, byteBit_reverseMaskXor hm hk, hc _ hk, bitAt_eq _ _ hk,
      decide_eq_true (by omega), decide_eq_false (by omega)]
    simp

end

/-! ## Bytes of the source -/

section

variable {src dst : List UInt8} {sp left : ℕ}

/-- A byte that is put together has the bits from `left` on. -/
theorem exists_shiftedByte (h : sp + 1 < src.length) (hpos : 0 < left) (hleft : left < 8) :
    ∃ c, shiftedByte src sp left (8 - left) = .ok c ∧
      ∀ k < 8, byteBit c k = bitAt src (8 * sp + left + k) := by
  refine ⟨src.getD sp 0 <<< UInt8.ofNat left ||| src.getD (sp + 1) 0 >>> UInt8.ofNat (8 - left),
    ?_, fun k hk => ?_⟩
  · rw [shiftedByte, loadAt_of_lt (by omega) 0, loadAt_of_lt h 0]
    rfl
  · rw [byteBit_or, byteBit_shiftLeft _ hleft, byteBit_shiftRight _ (by omega) hk]
    rcases Nat.lt_or_ge (k + left) 8 with hkl | hkl
    · rw [decide_eq_false (by omega), Bool.false_and, Bool.or_false, Nat.add_assoc,
        bitAt_eq _ _ (show left + k < 8 by omega), Nat.add_comm left]
    · rw [byteBit_of_le _ hkl, decide_eq_true (by omega), Bool.false_or, Bool.true_and,
        show 8 * sp + left + k = 8 * (sp + 1) + (k - (8 - left)) by omega,
        bitAt_eq _ _ (by omega)]

theorem lt_of_shiftedByte {right : ℕ} {c : UInt8} (h : shiftedByte src sp left right = .ok c) :
    sp + 1 < src.length := by
  obtain ⟨_, -, h⟩ := exists_of_bind h
  obtain ⟨b, hb, -⟩ := exists_of_bind h
  exact exists_loadAt_iff.1 ⟨b, hb⟩

/-- The middle bytes are put together one by one. -/
theorem exists_forLoop_shiftedByte {dp n i : ℕ} (hs : n = 0 ∨ sp + (i + n) < src.length)
    (hd : dp + (i + n) ≤ dst.length) (hpos : 0 < left) (hleft : left < 8) :
    ∃ dst', forLoop (fun i dst => do
        storeAt dst (dp + i) (← shiftedByte src (sp + i) left (8 - left))) n i dst = .ok dst' ∧
      BitsCopied src (8 * (sp + i) + left) (8 * n) dst (8 * (dp + i)) dst' := by
  induction n generalizing i dst with
  | zero => exact ⟨dst, rfl, .refl _ _ _ _⟩
  | succ n ih =>
    obtain ⟨c, hc, hbits⟩ := exists_shiftedByte (show sp + i + 1 < src.length by omega) hpos hleft
    have hfirst : BitsCopied src (8 * (sp + i) + left) 8 dst (8 * (dp + i) + 0)
        (dst.set (dp + i) c) :=
      .set (by omega) le_rfl (fun k hk => by rw [Nat.zero_add, hbits k hk]) fun k hk hout =>
        absurd hk (by omega)
    obtain ⟨dst', hdst', hrest⟩ := ih (i := i + 1) (by omega)
      (show dp + (i + 1 + n) ≤ (dst.set (dp + i) c).length by rw [List.length_set]; omega)
    refine ⟨dst', ?_, ?_⟩
    · rw [forLoop, hc]
      change (storeAt dst (dp + i) c).bind _ = _
      rw [storeAt_of_lt (by omega)]
      exact hdst'
    · rw [show 8 * (n + 1) = 8 + 8 * n by omega]
      refine hfirst.trans ?_
      rwa [show 8 * (sp + i) + left + 8 = 8 * (sp + (i + 1)) + left by omega,
        show 8 * (dp + i) + 0 + 8 = 8 * (dp + (i + 1)) by omega]

/-- The source has the bytes that the middle bytes are put together of. -/
theorem lt_of_forLoop_shiftedByte {dp n i right : ℕ} {dst' : List UInt8} (hn : 0 < n)
    (h : forLoop (fun i dst => do
      storeAt dst (dp + i) (← shiftedByte src (sp + i) left right)) n i dst = .ok dst') :
    sp + (i + n) < src.length := by
  induction n generalizing i dst with
  | zero => exact absurd hn (Nat.lt_irrefl 0)
  | succ n ih =>
    obtain ⟨dst₁, hfirst, hrest⟩ := exists_of_bind h
    obtain ⟨c, hc, -⟩ := exists_of_bind hfirst
    rcases Nat.eq_zero_or_pos n with rfl | hpos
    · exact lt_of_shiftedByte hc
    · have := ih hpos hrest
      omega

end

/-! ## Copying bits -/

/-- The source is read up to this byte: as many bytes as the destination has in the range, and
    one more where the range begins later in its byte. -/
def readEnd (sourceOffset bitCount destinationOffset : ℕ) : ℕ :=
  sourceOffset / 8 + (destinationOffset % 8 + bitCount + 7) / 8 +
    if destinationOffset % 8 < sourceOffset % 8 then 1 else 0

section

variable {src dst : List UInt8} {sp dp n left dm sm : ℕ}

/-- From the beginning of a byte, the bits are copied. -/
theorem exists_copyBytes (hs : 8 * sp + n ≤ 8 * src.length) (hd : 8 * dp + n ≤ 8 * dst.length) :
    ∃ dst', copyBytes src sp n dst dp = .ok dst' ∧
      BitsCopied src (8 * sp) n dst (8 * dp) dst' := by
  have hmemcpy : ∃ dst₁, (if n / 8 > 0 then memcpy dst dp src sp (n / 8) else .ok dst) =
      .ok dst₁ ∧ BitsCopied src (8 * sp) (8 * (n / 8)) dst (8 * dp) dst₁ := by
    rcases Nat.eq_zero_or_pos (n / 8) with hzero | hpos
    · rw [hzero]
      exact ⟨dst, rfl, .refl _ _ _ _⟩
    · have hlen : ((src.drop sp).take (n / 8)).length = n / 8 :=
        List.length_take_of_le (by rw [List.length_drop]; omega)
      refine ⟨_, ?_, BitsCopied.bytes (by omega) (by omega)⟩
      rw [if_pos hpos, memcpy_of_le (by omega), store, hlen, if_pos (by omega)]
  obtain ⟨dst₁, hdst₁, hbytes⟩ := hmemcpy
  rw [copyBytes, hdst₁]
  rcases Nat.eq_zero_or_pos (n % 8) with hzero | hpos
  · refine ⟨dst₁, ?_, ?_⟩
    · change (if n % 8 > 0 then _ else _) = _
      rw [if_neg (by omega)]
      rfl
    · rwa [show 8 * (n / 8) = n by omega] at hbytes
  · have hload : loadAt src (sp + n / 8) = .ok (src.getD (sp + n / 8) 0) :=
      loadAt_of_lt (by omega) 0
    obtain ⟨dst', hdst', hlast⟩ := exists_copyLast src (8 * (sp + n / 8))
      (reverseMask.getD (n % 8) 0 &&& src.getD (sp + n / 8) 0)
      (show dp + n / 8 < dst₁.length by rw [hbytes.length_eq]; omega)
      (show n % 8 ≤ 8 by omega) fun k hk => by
        rw [byteBit_and, byteBit_reverseMask (by omega) hk, bitAt_eq _ _ hk]
    refine ⟨dst', ?_, ?_⟩
    · change (if n % 8 > 0 then _ else _) = _
      rw [if_pos hpos, loadAt_reverseMask (by omega), hload]
      exact hdst'
    · have := hbytes.trans (m := n % 8) (by
        rwa [← Nat.mul_add, ← Nat.mul_add])
      rwa [show 8 * (n / 8) + n % 8 = n by omega] at this

/-- By shifting the source, the bits are copied to the beginning of a byte, if the source can be
    read. -/
theorem exists_copyShiftedBytes (hs : sp + (n + 7) / 8 < src.length ∨ n = 0)
    (hd : 8 * dp + n ≤ 8 * dst.length) (hpos : 0 < left) (hleft : left < 8) :
    ∃ dst', copyShiftedBytes src sp left (8 - left) n dst dp = .ok dst' ∧
      BitsCopied src (8 * sp + left) n dst (8 * dp) dst' := by
  obtain ⟨dst₁, hdst₁, hbytes⟩ := exists_forLoop_shiftedByte
    (show n / 8 = 0 ∨ sp + (0 + n / 8) < src.length by omega)
    (show dp + (0 + n / 8) ≤ dst.length by omega) hpos hleft
  rw [Nat.add_zero, Nat.add_zero] at hbytes
  rw [copyShiftedBytes, hdst₁]
  rcases Nat.eq_zero_or_pos (n % 8) with hzero | hmod
  · refine ⟨dst₁, ?_, ?_⟩
    · change (if n % 8 > 0 then _ else _) = _
      rw [if_neg (by omega)]
      rfl
    · rwa [show 8 * (n / 8) = n by omega] at hbytes
  · obtain ⟨c, hc, hbits⟩ := exists_shiftedByte
      (show sp + n / 8 + 1 < src.length by omega) hpos hleft
    obtain ⟨dst', hdst', hlast⟩ := exists_copyLast src (8 * (sp + n / 8) + left)
      (c &&& reverseMask.getD (n % 8) 0)
      (show dp + n / 8 < dst₁.length by rw [hbytes.length_eq]; omega)
      (show n % 8 ≤ 8 by omega) fun k hk => by
        rw [byteBit_and, byteBit_reverseMask (by omega) hk, hbits k hk, Bool.and_comm]
    refine ⟨dst', ?_, ?_⟩
    · change (if n % 8 > 0 then _ else _) = _
      rw [if_pos hmod, hc, loadAt_reverseMask (by omega)]
      exact hdst'
    · have := hbytes.trans (m := n % 8) (by
        rwa [← Nat.mul_add, show 8 * sp + left + 8 * (n / 8) = 8 * (sp + n / 8) + left by omega])
      rwa [show 8 * (n / 8) + n % 8 = n by omega] at this

theorem lt_of_copyShiftedBytes {right : ℕ} {dst' : List UInt8} (hn : 0 < n)
    (h : copyShiftedBytes src sp left right n dst dp = .ok dst') :
    sp + (n + 7) / 8 < src.length := by
  obtain ⟨_, hloop, h⟩ := exists_of_bind h
  rcases Nat.eq_zero_or_pos (n % 8) with hzero | hmod
  · have := lt_of_forLoop_shiftedByte (by omega) hloop
    omega
  · change (if n % 8 > 0 then _ else _) = _ at h
    rw [if_pos hmod] at h
    obtain ⟨_, hc, -⟩ := exists_of_bind h
    have := lt_of_shiftedByte hc
    omega

/-- Where the offsets are the same in their bytes, no more is read than what is copied. -/
theorem exists_copyAligned (hs : 8 * sp + sm + n ≤ 8 * src.length)
    (hd : 8 * dp + sm + n ≤ 8 * dst.length) (hn : 0 < n) (hsm : sm < 8) :
    ∃ dst', copyAligned src sp sm n dst dp = .ok dst' ∧
      BitsCopied src (8 * sp + sm) n dst (8 * dp + sm) dst' := by
  rcases Nat.eq_zero_or_pos sm with rfl | hpos
  · rw [copyAligned, if_neg (Nat.lt_irrefl 0), Nat.add_zero, Nat.add_zero]
    exact exists_copyBytes (by omega) (by omega)
  · have hload : loadAt src sp = .ok (src.getD sp 0) := loadAt_of_lt (by omega) 0
    obtain ⟨dst₁, hdst₁, hfirst⟩ := exists_copyFirst src (8 * sp + sm) n
      (reverseMaskXor.getD sm 0 &&& src.getD sp 0)
      (show dp < dst.length by omega) hsm fun k hk => by
        rw [byteBit_and, byteBit_reverseMaskXor (by omega) hk, ← bitAt_eq _ _ hk]
        by_cases hle : sm ≤ k
        · rw [show 8 * sp + sm + (k - sm) = 8 * sp + k by omega]
        · rw [decide_eq_false hle, Bool.false_and, Bool.false_and]
    obtain ⟨dst', hdst', hrest⟩ := exists_copyBytes
      (show 8 * (sp + 1) + (n - (8 - sm)) ≤ 8 * src.length by omega)
      (show 8 * (dp + 1) + (n - (8 - sm)) ≤ 8 * dst₁.length by rw [hfirst.length_eq]; omega)
    refine ⟨dst', ?_, ?_⟩
    · rw [copyAligned, if_pos hpos, loadAt_reverseMaskXor (by omega), hload]
      change (copyFirst dst dp sm n _).bind _ = _
      rw [hdst₁]
      exact hdst'
    · have := hfirst.trans_of hrest (by omega)
      rwa [show min n (8 - sm) + (n - (8 - sm)) = n by omega] at this

/-- What both directions of shifting do: the first byte is filled up, `c` having the bits at their
    places, and the rest is copied from where the source has got to. -/
theorem exists_copyFirst_copyShiftedBytes {s sp' left : ℕ} {c : UInt8}
    (hc : ∀ k < 8, byteBit c k = (decide (dm ≤ k) && bitAt src (s + (k - dm))))
    (hstart : s + (8 - dm) = 8 * sp' + left)
    (hs : sp' + (n - (8 - dm) + 7) / 8 < src.length ∨ n - (8 - dm) = 0)
    (hd : 8 * dp + dm + n ≤ 8 * dst.length) (hn : 0 < n) (hdm : dm < 8) (hpos : 0 < left)
    (hleft : left < 8) :
    ∃ dst', ((copyFirst dst dp dm n c).bind fun r =>
        copyShiftedBytes src sp' left (8 - left) r.2 r.1 (dp + 1)) = .ok dst' ∧
      BitsCopied src s n dst (8 * dp + dm) dst' := by
  obtain ⟨dst₁, hdst₁, hfirst⟩ :=
    exists_copyFirst src s n c (show dp < dst.length by omega) hdm hc
  obtain ⟨dst', hdst', hrest⟩ := exists_copyShiftedBytes hs
    (show 8 * (dp + 1) + (n - (8 - dm)) ≤ 8 * dst₁.length by rw [hfirst.length_eq]; omega)
    hpos hleft
  refine ⟨dst', ?_, ?_⟩
  · rw [hdst₁]
    exact hdst'
  · have hall := hfirst.trans_of hrest (by omega)
    rwa [show min n (8 - dm) + (n - (8 - dm)) = n by omega] at hall

/-- Where the offsets are different in their bytes, the bits are copied if the source can be
    read. -/
theorem exists_copyShifted
    (hs : sp + (dm + n + 7) / 8 + (if dm < sm then 1 else 0) ≤ src.length)
    (hd : 8 * dp + dm + n ≤ 8 * dst.length) (hn : 0 < n) (hdm : dm < 8) (hsm : sm < 8)
    (hne : sm ≠ dm) :
    ∃ dst', copyShifted src sp sm n dst dp dm = .ok dst' ∧
      BitsCopied src (8 * sp + sm) n dst (8 * dp + dm) dst' := by
  rcases Nat.lt_or_gt_of_ne hne with hlt | hgt
  · -- The bits move to the right, and the first byte has them all.
    rw [if_neg (by omega)] at hs
    have hload : loadAt src sp = .ok (src.getD sp 0) := loadAt_of_lt (by omega) 0
    have hc (k : ℕ) (hk : k < 8) : byteBit
        (src.getD sp 0 >>> UInt8.ofNat (dm - sm) &&& reverseMaskXor.getD dm 0) k =
          (decide (dm ≤ k) && bitAt src (8 * sp + sm + (k - dm))) := by
      rw [byteBit_and, byteBit_shiftRight _ (by omega) hk, byteBit_reverseMaskXor (by omega) hk]
      by_cases hle : dm ≤ k
      · rw [decide_eq_true hle, decide_eq_true (by omega), Bool.true_and, Bool.and_true,
          Bool.true_and, Nat.add_assoc, bitAt_eq _ _ (by omega)]
        congr 1
        omega
      · rw [decide_eq_false hle, Bool.and_false, Bool.false_and]
    obtain ⟨dst', hdst', hcopied⟩ := exists_copyFirst_copyShiftedBytes hc
      (show _ = 8 * sp + (8 - (dm - sm)) by omega) (by omega) hd hn hdm (by omega) (by omega)
    refine ⟨dst', ?_, hcopied⟩
    rw [show 8 - (8 - (dm - sm)) = dm - sm by omega] at hdst'
    rw [copyShifted, if_neg (by omega), hload, loadAt_reverseMaskXor (by omega)]
    exact hdst'
  · -- The bits move to the left, and the first byte is put together from two ones.
    rw [if_pos hgt] at hs
    obtain ⟨c, hshifted, hbits⟩ := exists_shiftedByte (show sp + 1 < src.length by omega)
      (show 0 < sm - dm by omega) (by omega)
    have hc (k : ℕ) (hk : k < 8) : byteBit (c &&& reverseMaskXor.getD dm 0) k =
        (decide (dm ≤ k) && bitAt src (8 * sp + sm + (k - dm))) := by
      rw [byteBit_and, hbits k hk, byteBit_reverseMaskXor (by omega) hk, Bool.and_comm]
      by_cases hle : dm ≤ k
      · rw [show 8 * sp + (sm - dm) + k = 8 * sp + sm + (k - dm) by omega]
      · rw [decide_eq_false hle, Bool.false_and, Bool.false_and]
    obtain ⟨dst', hdst', hcopied⟩ := exists_copyFirst_copyShiftedBytes hc
      (show _ = 8 * (sp + 1) + (sm - dm) by omega) (by omega) hd hn hdm (by omega) (by omega)
    refine ⟨dst', ?_, hcopied⟩
    rw [copyShifted, if_pos hgt]
    change (shiftedByte src sp (sm - dm) (8 - (sm - dm))).bind _ = _
    rw [hshifted, loadAt_reverseMaskXor (by omega)]
    exact hdst'

/-- The bits having been copied, the source could be read. -/
theorem le_of_copyShifted {dst' : List UInt8} (h : copyShifted src sp sm n dst dp dm = .ok dst')
    (hs : 8 * sp + sm + n ≤ 8 * src.length) (hd : 8 * dp + dm + n ≤ 8 * dst.length) (hn : 0 < n)
    (hdm : dm < 8) (hsm : sm < 8) (hne : sm ≠ dm) :
    sp + (dm + n + 7) / 8 + (if dm < sm then 1 else 0) ≤ src.length := by
  rcases Nat.lt_or_gt_of_ne hne with hlt | hgt
  · rw [copyShifted, if_neg (by omega)] at h
    obtain ⟨_, -, h⟩ := exists_of_bind h
    obtain ⟨_, -, h⟩ := exists_of_bind h
    obtain ⟨⟨dst₁, m⟩, hfirst, h⟩ := exists_of_bind h
    obtain rfl := eq_of_copyFirst (by omega) hdm hfirst
    rw [if_neg (by omega)]
    rcases Nat.eq_zero_or_pos (n - (8 - dm)) with hzero | hpos
    · omega
    · have := lt_of_copyShiftedBytes hpos h
      omega
  · rw [copyShifted, if_pos hgt] at h
    obtain ⟨_, hc, h⟩ := exists_of_bind h
    obtain ⟨_, -, h⟩ := exists_of_bind h
    obtain ⟨⟨dst₁, m⟩, hfirst, h⟩ := exists_of_bind h
    obtain rfl := eq_of_copyFirst (by omega) hdm hfirst
    rw [if_pos hgt]
    rcases Nat.eq_zero_or_pos (n - (8 - dm)) with hzero | hpos
    · have := lt_of_shiftedByte hc
      omega
    · have := lt_of_copyShiftedBytes hpos h
      omega

end

section

variable {source destination : List UInt8}
  {sourceLength sourceOffset bitCount destinationLength destinationOffset : UInt16}

/-- The range is not empty, and fits in the arrays. -/
def RangeFits (sourceLength sourceOffset bitCount destinationLength destinationOffset : UInt16) :
    Prop :=
  0 < bitCount.toNat ∧ sourceOffset.toNat + bitCount.toNat ≤ 8 * sourceLength.toNat ∧
    destinationOffset.toNat + bitCount.toNat ≤ 8 * destinationLength.toNat

instance : Decidable
    (RangeFits sourceLength sourceOffset bitCount destinationLength destinationOffset) :=
  inferInstanceAs (Decidable (_ ∧ _))

/-- Nothing happens for a range that does not fit. -/
theorem copyBits_of_not_fits
    (h : ¬RangeFits sourceLength sourceOffset bitCount destinationLength destinationOffset) :
    copyBits source sourceLength sourceOffset bitCount destination destinationLength
      destinationOffset = .ok (false, destination) := by
  rw [copyBits]
  split_ifs with h₀ h₁
  · rfl
  · rfl
  · rw [UInt16.lt_iff_toNat_lt] at h₀
    refine absurd ⟨?_, ?_, ?_⟩ h
    · exact Nat.pos_of_ne_zero fun h => h₀ (by rw [h]; decide)
    all_goals omega

/-- A range that fits is copied, if the source can be read. -/
theorem exists_copyBits
    (h : RangeFits sourceLength sourceOffset bitCount destinationLength destinationOffset)
    (hs : sourceLength.toNat ≤ source.length) (hd : destinationLength.toNat ≤ destination.length)
    (hread : readEnd sourceOffset.toNat bitCount.toNat destinationOffset.toNat ≤ source.length) :
    ∃ destination', copyBits source sourceLength sourceOffset bitCount destination
        destinationLength destinationOffset = .ok (true, destination') ∧
      BitsCopied source sourceOffset.toNat bitCount.toNat destination destinationOffset.toNat
        destination' := by
  obtain ⟨hpos, hsource, hdestination⟩ := h
  have hs8 : 8 * (sourceOffset.toNat / 8) + sourceOffset.toNat % 8 = sourceOffset.toNat := by omega
  have hd8 : 8 * (destinationOffset.toNat / 8) + destinationOffset.toNat % 8 =
      destinationOffset.toNat := by omega
  rw [copyBits, if_neg (by rw [UInt16.lt_iff_toNat_lt]; exact Nat.not_lt.2 hpos),
    if_neg (by omega)]
  by_cases heq : sourceOffset.toNat % 8 = destinationOffset.toNat % 8
  · obtain ⟨destination', hcopy, hbits⟩ := exists_copyAligned
      (show 8 * (sourceOffset.toNat / 8) + sourceOffset.toNat % 8 + bitCount.toNat ≤
        8 * source.length by omega)
      (show 8 * (destinationOffset.toNat / 8) + sourceOffset.toNat % 8 + bitCount.toNat ≤
        8 * destination.length by omega) hpos (by omega)
    rw [hs8, heq, hd8] at hbits
    refine ⟨destination', ?_, hbits⟩
    rw [if_pos heq, hcopy]
    rfl
  · obtain ⟨destination', hcopy, hbits⟩ := exists_copyShifted
      (show sourceOffset.toNat / 8 + (destinationOffset.toNat % 8 + bitCount.toNat + 7) / 8 +
        (if destinationOffset.toNat % 8 < sourceOffset.toNat % 8 then 1 else 0) ≤ source.length
        from hread)
      (show 8 * (destinationOffset.toNat / 8) + destinationOffset.toNat % 8 + bitCount.toNat ≤
        8 * destination.length by omega) hpos (by omega) (by omega) heq
    rw [hs8, hd8] at hbits
    refine ⟨destination', ?_, hbits⟩
    rw [if_neg heq, hcopy]
    rfl

/-- A range that fits is copied iff the source can be read. -/
theorem exists_copyBits_iff
    (h : RangeFits sourceLength sourceOffset bitCount destinationLength destinationOffset)
    (hs : sourceLength.toNat ≤ source.length)
    (hd : destinationLength.toNat ≤ destination.length) :
    (∃ r, copyBits source sourceLength sourceOffset bitCount destination destinationLength
      destinationOffset = .ok r) ↔
      readEnd sourceOffset.toNat bitCount.toNat destinationOffset.toNat ≤ source.length := by
  refine ⟨fun ⟨r, hr⟩ => ?_, fun hread => ?_⟩
  · obtain ⟨hpos, hsource, hdestination⟩ := h
    rw [copyBits, if_neg (by rw [UInt16.lt_iff_toNat_lt]; exact Nat.not_lt.2 hpos),
      if_neg (by omega)] at hr
    by_cases heq : sourceOffset.toNat % 8 = destinationOffset.toNat % 8
    · rw [readEnd, if_neg (by omega)]
      omega
    · rw [if_neg heq] at hr
      obtain ⟨_, hcopy, -⟩ := exists_of_bind hr
      exact le_of_copyShifted hcopy (by omega) (by omega) hpos (by omega) (by omega) heq
  · obtain ⟨destination', hr, -⟩ := exists_copyBits h hs hd hread
    exact ⟨_, hr⟩

/-- At most one byte behind the source is read. -/
theorem readEnd_le
    (h : RangeFits sourceLength sourceOffset bitCount destinationLength destinationOffset) :
    readEnd sourceOffset.toNat bitCount.toNat destinationOffset.toNat ≤
      sourceLength.toNat + 1 := by
  obtain ⟨-, hsource, -⟩ := h
  rw [readEnd]
  split_ifs <;> omega

/-- `copy_bits` copies the range if it is not empty and fits in both arrays, and else leaves the
    destination, where a byte can be read behind the source. -/
theorem copyBits_copies (hs : sourceLength.toNat < source.length)
    (hd : destinationLength.toNat ≤ destination.length) :
    ∃ destination', copyBits source sourceLength sourceOffset bitCount destination
        destinationLength destinationOffset = .ok (decide (RangeFits sourceLength sourceOffset
          bitCount destinationLength destinationOffset), destination') ∧
      (RangeFits sourceLength sourceOffset bitCount destinationLength destinationOffset →
        BitsCopied source sourceOffset.toNat bitCount.toNat destination destinationOffset.toNat
          destination') ∧
      (¬RangeFits sourceLength sourceOffset bitCount destinationLength destinationOffset →
        destination' = destination) := by
  by_cases h : RangeFits sourceLength sourceOffset bitCount destinationLength destinationOffset
  · obtain ⟨destination', hcopy, hbits⟩ := exists_copyBits h hs.le hd ((readEnd_le h).trans hs)
    exact ⟨destination', by rw [hcopy, decide_eq_true h], fun _ => hbits, fun hn => absurd h hn⟩
  · exact ⟨destination, by rw [copyBits_of_not_fits h, decide_eq_false h],
      fun hf => absurd hf h, fun _ => rfl⟩

theorem copyBits_copies_header :
    ∃ destination', copyBits [0x11, 0x22, 0x33, 0x44, 0x00] 4 8 8 [0, 0, 0, 0] 4 0 =
        .ok (decide (RangeFits 4 8 8 4 0), destination') ∧
      (RangeFits 4 8 8 4 0 →
        BitsCopied [0x11, 0x22, 0x33, 0x44, 0x00] 8 8 [0, 0, 0, 0] 0 destination') ∧
      (¬RangeFits 4 8 8 4 0 → destination' = [0, 0, 0, 0]) :=
  copyBits_copies (by decide) (by decide)

/-- `copy_bits` stays within an array of the length that it is told, iff it does not read up to a
    byte behind it. -/
theorem copyBits_ok_iff (hs : source.length = sourceLength.toNat)
    (hd : destinationLength.toNat ≤ destination.length) :
    (∃ r, copyBits source sourceLength sourceOffset bitCount destination destinationLength
      destinationOffset = .ok r) ↔
      (RangeFits sourceLength sourceOffset bitCount destinationLength destinationOffset →
        readEnd sourceOffset.toNat bitCount.toNat destinationOffset.toNat ≤
          sourceLength.toNat) := by
  by_cases h : RangeFits sourceLength sourceOffset bitCount destinationLength destinationOffset
  · rw [exists_copyBits_iff h hs.ge hd, hs]
    exact ⟨fun hle _ => hle, fun hle => hle h⟩
  · exact iff_of_true ⟨_, copyBits_of_not_fits h⟩ fun hf => absurd hf h

/-- Copying the last two bits of an array to its third bit reads behind it. -/
theorem copyBits_ok_iff_last :
    (∃ r, copyBits [0x11, 0x22] 2 14 2 [0, 0] 2 2 = .ok r) ↔
      (RangeFits 2 14 2 2 2 → readEnd 14 2 2 ≤ 2) :=
  copyBits_ok_iff rfl (by decide)

end

end QustomKeyboard
