import Mathlib.Data.List.TakeDrop
import QustomKeyboard.Theory.Bytes

/-!
# The packet on the serial line

A CAN frame travels on the serial line as a packed struct of 19 bytes,
`UartCanData`, whose integers are little-endian: a magic number telling its
direction, the frame, and a checksum over everything before it.

The source reinterprets the bytes of its buffer as the struct (`ofBytes`), or
the struct as the bytes to be sent (`toBytes`); no padding is left, so that
these are inverse to each other.

The body of `utils::crc16_modbus` is not readable in the source, and the results
take the checksum as a parameter. For trying them on actual packets, there is the
one that is known by this name (`modbusCrc`).
-/

namespace QustomKeyboard

open Theory

/-- The most data bytes a CAN frame has. -/
abbrev maxCanFrameDataLen : ℕ := 8

/-- `sizeof(UartCanData)`. -/
abbrev sizeofUartCanData : ℕ := 19

/-- The magic number of a packet sent to the CAN bus. -/
def magicNumberSendDataToCanBus : UInt32 := 0xAABBCCDD

/-- The magic number of a packet received from the CAN bus. -/
def magicNumberRecvDataFromCanBus : UInt32 := 0xAABBCCDE

/-- The packed struct of a packet. -/
structure UartCanData where
  magicNumber : UInt32
  frameId : UInt32
  dataLen : UInt8
  data : Vector UInt8 maxCanFrameDataLen
  crc : UInt16
  deriving DecidableEq

namespace UartCanData

/-- The bytes of the packet covered by its checksum: all but the checksum. -/
def body (d : UartCanData) : List UInt8 :=
  toLe 4 d.magicNumber.toNat ++ (toLe 4 d.frameId.toNat ++ (d.dataLen :: d.data.toList))

/-- The bytes of the packet. -/
def toBytes (d : UartCanData) : List UInt8 := d.body ++ toLe 2 d.crc.toNat

/-- The bytes `bs` seen as a packet. -/
def ofBytes (bs : List UInt8) : UartCanData where
  magicNumber := .ofNat (ofLe (bs.take 4))
  frameId := .ofNat (ofLe ((bs.drop 4).take 4))
  dataLen := bs.getD 8 0
  data := Vector.ofFn fun i => bs.getD (9 + i) 0
  crc := .ofNat (ofLe ((bs.drop 17).take 2))

@[simp] theorem length_body (d : UartCanData) : d.body.length = 17 := by
  simp [body, maxCanFrameDataLen]

@[simp] theorem length_toBytes (d : UartCanData) : d.toBytes.length = sizeofUartCanData := by
  simp [toBytes]

theorem take_toBytes (d : UartCanData) : d.toBytes.take (sizeofUartCanData - 2) = d.body :=
  List.take_left' d.length_body

/-- The bytes of a packet open with its magic number. -/
theorem magicNumber_prefix_toBytes (d : UartCanData) :
    toLe 4 d.magicNumber.toNat <+: d.toBytes := by
  rw [toBytes, body, List.append_assoc]
  exact List.prefix_append _ _

/-- The fields of a packet, from the bytes each of them takes. -/
theorem ofBytes_append {m i v c : List UInt8} {l : UInt8} (hm : m.length = 4) (hi : i.length = 4)
    (hv : v.length = maxCanFrameDataLen) (hc : c.length = 2) :
    ofBytes (m ++ (i ++ (l :: v)) ++ c) =
      { magicNumber := .ofNat (ofLe m)
        frameId := .ofNat (ofLe i)
        dataLen := l
        data := ⟨v.toArray, by simpa using hv⟩
        crc := .ofNat (ofLe c) } := by
  have hbody : (m ++ (i ++ (l :: v))).length = 17 := by simp [hm, hi, hv, maxCanFrameDataLen]
  have hmi : (m ++ i).length = 8 := by simp [hm, hi]
  have hmil : (m ++ i ++ [l]).length = 9 := by simp [hm, hi]
  have e₁ : (m ++ (i ++ (l :: v)) ++ c).take 4 = m := by
    rw [List.append_assoc, ← hm, List.take_left]
  have e₂ : ((m ++ (i ++ (l :: v)) ++ c).drop 4).take 4 = i := by
    rw [List.append_assoc, ← hm, List.drop_left, hm, List.append_assoc, ← hi, List.take_left]
  have e₃ : (m ++ (i ++ (l :: v)) ++ c).drop 8 = l :: v ++ c := by
    rw [← List.append_assoc, List.append_assoc, ← hmi, List.drop_left]
  have e₄ : (m ++ (i ++ (l :: v)) ++ c).drop 17 = c := by rw [← hbody, List.drop_left]
  have hcell (k : ℕ) : (m ++ (i ++ (l :: v)) ++ c).getD (8 + k) 0 = (l :: v ++ c).getD k 0 := by
    rw [← e₃, List.getD_eq_getElem?_getD, List.getD_eq_getElem?_getD, List.getElem?_drop]
  have hdata : (Vector.ofFn fun j : Fin maxCanFrameDataLen =>
      (m ++ (i ++ (l :: v)) ++ c).getD (9 + j) 0) = ⟨v.toArray, by simpa using hv⟩ := by
    ext j hj
    have hjv : j < v.length := hv ▸ hj
    have := hcell (1 + j)
    rw [← Nat.add_assoc, Nat.add_comm 1 j, List.cons_append, List.getD_cons_succ] at this
    simp only [Vector.getElem_ofFn, this, Vector.getElem_mk, List.getElem_toArray]
    rw [List.getD_eq_getElem?_getD, List.getElem?_append_left hjv, List.getElem?_eq_getElem hjv,
      Option.getD_some]
  unfold ofBytes
  rw [e₁, e₂, e₄, List.take_of_length_le hc.le, hdata, show (8 : ℕ) = 8 + 0 from rfl, hcell 0]
  rfl

/-- A packet is read back from its bytes. -/
theorem ofBytes_toBytes (d : UartCanData) : ofBytes d.toBytes = d := by
  obtain ⟨magic, id, len, data, crc⟩ := d
  have hm : ofLe (toLe 4 magic.toNat) = magic.toNat := ofLe_toLe_of_lt magic.toNat_lt
  have hi : ofLe (toLe 4 id.toNat) = id.toNat := ofLe_toLe_of_lt id.toNat_lt
  have hc : ofLe (toLe 2 crc.toNat) = crc.toNat := ofLe_toLe_of_lt crc.toNat_lt
  rw [toBytes, body, ofBytes_append (by simp) (by simp) (by simp) (by simp)]
  simp only [hm, hi, hc, UInt32.ofNat_toNat, UInt16.ofNat_toNat, mk.injEq, true_and, and_true]
  exact Vector.toArray_inj.1 rfl

/-- Bytes making up a packet, cut at the offsets of its fields. -/
theorem exists_fields {bs : List UInt8} (h : bs.length = sizeofUartCanData) :
    ∃ m i l v c, bs = m ++ (i ++ (l :: v)) ++ c ∧
      m.length = 4 ∧ i.length = 4 ∧ v.length = maxCanFrameDataLen ∧ c.length = 2 := by
  have h19 : bs.length = 19 := h
  refine ⟨bs.take 4, (bs.drop 4).take 4, bs[8], (bs.drop 9).take 8, bs.drop 17, ?_, ?_, ?_, ?_, ?_⟩
  · have e₉ : bs.drop 9 = (bs.drop 9).take 8 ++ bs.drop 17 := by
      rw [← List.drop_drop (i := 8) (j := 9), List.take_append_drop]
    have e₈ : bs.drop 8 = bs[8] :: bs.drop 9 := List.drop_eq_getElem_cons (by omega)
    have e₄ : bs.drop 4 = (bs.drop 4).take 4 ++ bs.drop 8 := by
      rw [← List.drop_drop (i := 4) (j := 4), List.take_append_drop]
    rw [List.append_assoc, List.append_assoc, List.cons_append, ← e₉, ← e₈, ← e₄,
      List.take_append_drop]
  all_goals simp only [List.length_take, List.length_drop, maxCanFrameDataLen]; omega

/-- The bytes of a packet are read back from it. -/
theorem toBytes_ofBytes {bs : List UInt8} (h : bs.length = sizeofUartCanData) :
    (ofBytes bs).toBytes = bs := by
  obtain ⟨m, i, l, v, c, rfl, hm, hi, hv, hc⟩ := exists_fields h
  have em : toLe 4 (UInt32.ofNat (ofLe m)).toNat = m := by
    rw [UInt32.toNat_ofNat_of_lt' (by simpa [hm] using ofLe_lt m), ← hm, toLe_ofLe]
  have ei : toLe 4 (UInt32.ofNat (ofLe i)).toNat = i := by
    rw [UInt32.toNat_ofNat_of_lt' (by simpa [hi] using ofLe_lt i), ← hi, toLe_ofLe]
  have ec : toLe 2 (UInt16.ofNat (ofLe c)).toNat = c := by
    rw [UInt16.toNat_ofNat_of_lt' (by simpa [hc] using ofLe_lt c), ← hc, toLe_ofLe]
  rw [ofBytes_append hm hi hv hc, toBytes, body, em, ei, ec]
  rfl

end UartCanData

/-! ## The checksum -/

/-- The remainder modulo the reflected polynomial `0xA001`, shifted by one bit. -/
def crcShift (crc : UInt16) : UInt16 :=
  if crc &&& 1 = 1 then (crc >>> 1) ^^^ 0xA001 else crc >>> 1

/-- The remainder after the byte `b`. -/
def crcByte (crc : UInt16) (b : UInt8) : UInt16 :=
  Nat.repeat crcShift 8 (crc ^^^ b.toUInt16)

/-- The checksum of the MODBUS protocol. -/
def modbusCrc (bs : List UInt8) : UInt16 := bs.foldl crcByte 0xFFFF

-- The check value of the checksum, on the digits from 1 to 9.
example : modbusCrc [0x31, 0x32, 0x33, 0x34, 0x35, 0x36, 0x37, 0x38, 0x39] = 0x4B37 := by
  decide +kernel

end QustomKeyboard
