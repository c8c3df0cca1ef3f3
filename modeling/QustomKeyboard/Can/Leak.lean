import Mathlib
import QustomKeyboard.Can.Sender

/-!
# What a packet tells of the stack

The buffer in which `SendPendingCanFrames` lays a packet out stands on its
stack, and is not initialised. All 19 bytes of it are sent, while the data
field is written as far as the frame has data only, and the checksum is taken
of the whole: the packet of a shorter frame tells what the stack has held.

Two buffers give the same packet iff they agree where the data field is not
written (`sentPacket_eq_iff`); the packet is that of the frame alone iff there
is no such place, the frame having all of its eight bytes (`sentPacket_forall_iff`).
-/

namespace QustomKeyboard

open Theory

variable (crc16Modbus : List UInt8 → UInt16)

/-- The bytes that `SendPendingCanFrames` writes to the line for the frame `d`, the
    buffer on its stack holding `stack` before. -/
def sentPacket (d : CanData) (stack : Vector UInt8 canSerialTxBufferSize) :
    Except Fault (List UInt8) := do
  let r ← prepareSendDataFormat crc16Modbus d stack.toList canSerialTxBufferSize
  return r.out.take r.size

/-- What the stack held in the place of the data field. -/
def stackData (stack : Vector UInt8 canSerialTxBufferSize) : Vector UInt8 maxCanFrameDataLen :=
  (UartCanData.ofBytes (stack.toList.take sizeofUartCanData)).data

theorem get_stackData (stack : Vector UInt8 canSerialTxBufferSize)
    (i : Fin maxCanFrameDataLen) : (stackData stack).get i = stack.toList.getD (9 + i) 0 := by
  have hi : 9 + (i : ℕ) < sizeofUartCanData :=
    Nat.lt_of_lt_of_le (Nat.add_lt_add_left i.2 9) (by decide)
  simp [stackData, UartCanData.ofBytes, Vector.get_eq_getElem, List.getD_eq_getElem?_getD,
    List.getElem?_take_of_lt hi]

variable {crc16Modbus} {d : CanData}

/-- The packet is that of the frame over what the stack held. -/
theorem sentPacket_eq (hlen : d.dataLen.toNat ≤ maxCanFrameDataLen)
    (stack : Vector UInt8 canSerialTxBufferSize) :
    sentPacket crc16Modbus d stack =
      .ok (txPacket crc16Modbus d (stackData stack)).toBytes := by
  have hout : sizeofUartCanData ≤ stack.toList.length := by
    rw [Vector.length_toList]
    decide
  rw [sentPacket, prepareSendDataFormat_eq crc16Modbus hlen (by decide) hout]
  show Except.ok (List.take sizeofUartCanData _) = _
  rw [List.take_left' (UartCanData.length_toBytes _)]
  rfl

/-- The data fields over two buffers are the same iff the buffers agree behind the data. -/
theorem dataOver_eq_iff {old₁ old₂ : Vector UInt8 maxCanFrameDataLen} :
    d.dataOver old₁ = d.dataOver old₂ ↔
      ∀ i : Fin maxCanFrameDataLen, d.dataLen.toNat ≤ i → old₁.get i = old₂.get i := by
  constructor
  · intro h i hi
    have := congrArg (fun v : Vector UInt8 maxCanFrameDataLen => v.get i) h
    simpa [CanData.dataOver, Vector.get_eq_getElem, Nat.not_lt.2 hi] using this
  · intro h
    refine congrArg Vector.ofFn (funext fun i => ?_)
    split_ifs with hlt
    · rfl
    · exact h i (Nat.not_lt.1 hlt)

/-- Two buffers give the same packet iff they agree in what is left of the data field. -/
theorem sentPacket_eq_iff (hlen : d.dataLen.toNat ≤ maxCanFrameDataLen)
    {stack₁ stack₂ : Vector UInt8 canSerialTxBufferSize} :
    sentPacket crc16Modbus d stack₁ = sentPacket crc16Modbus d stack₂ ↔
      ∀ i : Fin maxCanFrameDataLen, d.dataLen.toNat ≤ i →
        (stackData stack₁).get i = (stackData stack₂).get i := by
  rw [sentPacket_eq hlen, sentPacket_eq hlen, Except.ok.injEq, ← dataOver_eq_iff]
  constructor
  · intro h
    have := congrArg (fun bs => (UartCanData.ofBytes bs).data) h
    simp only [UartCanData.ofBytes_toBytes] at this
    exact this
  · intro h
    rw [txPacket, txPacket, h]

/-- The packet depends on the frame only iff the frame has all of its eight bytes. -/
theorem sentPacket_forall_iff (hlen : d.dataLen.toNat ≤ maxCanFrameDataLen) :
    (∀ stack₁ stack₂, sentPacket crc16Modbus d stack₁ = sentPacket crc16Modbus d stack₂) ↔
      d.dataLen.toNat = maxCanFrameDataLen := by
  constructor
  · intro h
    by_contra hne
    have hlt : d.dataLen.toNat < maxCanFrameDataLen := by omega
    have := (sentPacket_eq_iff hlen).1
      (h (Vector.replicate _ 0) (Vector.replicate _ 1)) ⟨_, hlt⟩ le_rfl
    have hsize : 9 + d.dataLen.toNat < canSerialTxBufferSize :=
      (Nat.add_lt_add_left hlt 9).trans (by decide)
    rw [get_stackData, get_stackData, Vector.toList_replicate, Vector.toList_replicate,
      List.getD_replicate _ hsize, List.getD_replicate _ hsize] at this
    exact absurd this (by decide)
  · intro heq stack₁ stack₂
    rw [sentPacket_eq_iff hlen]
    intro i hi
    exact absurd i.2 (by omega)

/-- A frame of eight bytes. -/
def fullFrame : CanData where
  frameId := 0x123
  dataLen := 8
  data := #v[7, 0, 0, 0, 0, 0, 0, 0]

theorem sentPacket_fullFrame :
    sentPacket modbusCrc fullFrame (Vector.replicate _ 0) =
      sentPacket modbusCrc fullFrame (Vector.replicate _ 0xFF) :=
  (sentPacket_forall_iff (by decide)).2 rfl _ _

/-- The frame of its first byte only. -/
def shortFrame : CanData := { fullFrame with dataLen := 1 }

/-- Over a stack of zeros and over one of ones, its packet is not the same. -/
theorem sentPacket_shortFrame_ne :
    sentPacket modbusCrc shortFrame (Vector.replicate _ 0) ≠
      sentPacket modbusCrc shortFrame (Vector.replicate _ 0xFF) := by
  decide +kernel

end QustomKeyboard
