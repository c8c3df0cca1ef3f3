import QustomKeyboard.Can.Resync
import QustomKeyboard.Can.Sender

/-!
# Decoding a noisy line

The device answers in the layout in which it is addressed: a packet received is
one laid out by `prepareSendDataFormat`, but for the receive magic (and the
checksum, which covers it). On the line, anything may come before, between and
after the packets (`Noise`), except for a whole receive magic.

The receiver then hands on exactly the frames that were laid out, whatever they
carry (`decodes_noisyLine`): the noise before a packet cannot make up a magic
number together with the start of the packet, because the magic number does not
overlap itself, and the bytes of a packet are never looked at one by one.
-/

namespace QustomKeyboard

open Theory

/-- A run of bytes without the receive magic. -/
structure Noise where
  bytes : List UInt8
  no_magic : ¬toLe 4 magicNumberRecvDataFromCanBus.toNat <:+: bytes

/-- A CAN frame to be laid out in a buffer, and what the buffer held before. -/
structure WireFrame where
  frame : CanData
  len_le : frame.dataLen.toNat ≤ maxCanFrameDataLen
  buffer : List UInt8
  buffer_length : buffer.length = canSerialTxBufferSize

/-- What a call of `AddToRxQueue` says: the identifier, the length, and as many
    data bytes as it says there are. -/
def RxCall.content (c : RxCall) : UInt32 × UInt8 × List UInt8 :=
  (c.frameId, c.dataLen, c.data.toList.take c.dataLen.toNat)

/-- What a frame says, likewise. -/
def CanData.content (d : CanData) : UInt32 × UInt8 × List UInt8 :=
  (d.frameId, d.dataLen, d.data.toList.take d.dataLen.toNat)

variable (crc16Modbus : List UInt8 → UInt16)

/-- The packet `bs` with the receive magic put in, and its checksum recomputed. -/
def asReceived (bs : List UInt8) : List UInt8 :=
  let d := { UartCanData.ofBytes bs with magicNumber := magicNumberRecvDataFromCanBus }
  UartCanData.toBytes { d with crc := crc16Modbus d.body }

/-- The bytes on the line of a frame. -/
def WireFrame.wire (F : WireFrame) : Except Fault (List UInt8) := do
  let r ← prepareSendDataFormat crc16Modbus F.frame F.buffer F.buffer.length
  return asReceived crc16Modbus (r.out.take r.size)

/-- The line: some noise, and then frames, with some noise after each of them. -/
def noisyLine (g : Noise) : List (WireFrame × Noise) → Except Fault (List UInt8)
  | [] => return g.bytes
  | (F, g') :: line => do
    let packet ← F.wire crc16Modbus
    let rest ← noisyLine g' line
    return g.bytes ++ (packet ++ rest)

/-- The noise at the end of the line. -/
def lastNoise (g : Noise) : List (WireFrame × Noise) → Noise
  | [] => g
  | (_, g') :: line => lastNoise g' line

/-- The call that a frame on the line makes for. -/
def WireFrame.call (F : WireFrame) : RxCall where
  frameId := F.frame.frameId
  dataLen := F.frame.dataLen
  data := F.frame.dataOver (UartCanData.ofBytes (F.buffer.take sizeofUartCanData)).data

/-- The call says what the frame says. -/
theorem WireFrame.content_call (F : WireFrame) : F.call.content = F.frame.content :=
  congrArg (fun bs => (F.frame.frameId, F.frame.dataLen, bs)) (CanData.take_dataOver F.len_le _)

/-- The encoder lays a frame out as the packet that the decoder hands on. -/
theorem WireFrame.wire_eq (F : WireFrame) :
    F.wire crc16Modbus = .ok (rxPacket crc16Modbus F.call).toBytes := by
  have hbuffer : sizeofUartCanData ≤ F.buffer.length := by rw [F.buffer_length]; decide
  rw [wire, prepareSendDataFormat_eq crc16Modbus F.len_le hbuffer hbuffer]
  -- The first 19 bytes of the buffer are those of the packet, read back field by field.
  show Except.ok (asReceived crc16Modbus (List.take sizeofUartCanData _)) = _
  rw [List.take_left' (UartCanData.length_toBytes _), asReceived, UartCanData.ofBytes_toBytes]
  rfl

/-- The scan of a noisy line: the calls of its frames, and a part of its last noise. -/
theorem scan_noisyLine (g : Noise) (line : List (WireFrame × Noise)) :
    ∃ s rest, noisyLine crc16Modbus g line = .ok s ∧
      (frameScanner crc16Modbus).scan s = (line.map fun l => l.1.call, rest) ∧
      rest <:+ (lastNoise g line).bytes := by
  induction line generalizing g with
  | nil =>
    exact ⟨g.bytes, _, rfl, Prod.ext (Scanner.scan_of_not_infix _ g.no_magic) rfl,
      Scanner.residue_suffix _ _⟩
  | cons l line ih =>
    obtain ⟨F, g'⟩ := l
    obtain ⟨s, rest, hs, hscan, hrest⟩ := ih g'
    have hpacket : (frameScanner crc16Modbus).Packet (rxPacket crc16Modbus F.call).toBytes F.call :=
      (packet_iff crc16Modbus).2 rfl
    refine ⟨g.bytes ++ ((rxPacket crc16Modbus F.call).toBytes ++ s), rest, ?_, ?_, hrest⟩
    · simp only [noisyLine, F.wire_eq, hs, bind, Except.bind]
      rfl
    · -- The noise is skipped up to the packet, which is then consumed as a whole.
      rw [Scanner.scan_garbage _ magic_unbordered g.no_magic
        (hpacket.hit.trans (List.prefix_append _ _))
        (by rw [List.length_append, hpacket.length_eq]; exact Nat.le_add_right _ _),
        Scanner.scan_packet _ hpacket.length_eq hpacket.hit, hpacket.emit_eq, hscan]
      rfl

/-- Whatever noise comes before, between and after frames of at most eight bytes,
    the receiver hands on exactly these frames, in order, and leaves nothing but
    some of the noise at the end. -/
theorem decodes_noisyLine (g : Noise) (line : List (WireFrame × Noise)) :
    ∃ s calls rest, noisyLine crc16Modbus g line = .ok s ∧ Receives crc16Modbus s calls rest ∧
      calls.map RxCall.content = (line.map fun l => l.1.frame.content) ∧
      rest <:+ (lastNoise g line).bytes := by
  obtain ⟨s, rest, hs, hscan, hrest⟩ := scan_noisyLine crc16Modbus g line
  refine ⟨s, _, rest, hs, receives_iff.2 hscan, ?_, hrest⟩
  rw [List.map_map]
  exact List.map_congr_left fun l _ => l.1.content_call

/-- The first three bytes of the magic number are noise. -/
def brokenMagic : Noise := ⟨[0xDE, 0xCC, 0xBB], by decide⟩

/-- A frame of two bytes, in a buffer that is not empty. -/
def twoByteFrame : WireFrame where
  frame := ⟨0x123, 2, #v[0xAA, 0xBB, 0, 0, 0, 0, 0, 0]⟩
  len_le := by decide
  buffer := List.replicate canSerialTxBufferSize 0xDE
  buffer_length := List.length_replicate

-- The frame is decoded between the noise, and the noise behind it is left.
example : (noisyLine modbusCrc brokenMagic [(twoByteFrame, brokenMagic)]).toOption.map
    (fun s => ((frameScanner modbusCrc).scan s).map (·.map RxCall.content) id) =
      some ([(0x123, 2, [0xAA, 0xBB])], [0xDE, 0xCC, 0xBB]) := by
  decide +kernel

end QustomKeyboard
