import QustomKeyboard.Can.UartCanData
import QustomKeyboard.Theory.CircularBuffer
import QustomKeyboard.Theory.Loop
import QustomKeyboard.Theory.Memory
import QustomKeyboard.Theory.Scanner

/-!
# Receiving CAN frames

The bytes received from the serial port are appended to a circular buffer
(`onDataReceived`), which the worker thread goes through
(`processReceivedFrames`): as long as a packet fits, it looks at the first 19
bytes. If they open with the receive magic, they are consumed as a packet, and
handed on if the checksum is right; otherwise one byte is dropped.

The two nested loops of the source are those of `Theory.Loop`: they return
nothing if they run out of fuel, or read outside of the buffer. They never do
(`processReceivedFrames_eq`), and come down to the scan of the buffer by a
resynchronising scanner (`frameScanner`).

The checksum `crc16Modbus` is a parameter: its body is not readable in the
source.
-/

namespace QustomKeyboard

open Theory

/-- The arguments of a call of `AddToRxQueue`. -/
structure RxCall where
  frameId : UInt32
  dataLen : UInt8
  /-- The eight bytes at which `data` points. -/
  data : Vector UInt8 maxCanFrameDataLen
  deriving DecidableEq

/-- The receiving side: the circular buffer of received bytes, and the calls of
    `AddToRxQueue` made so far. -/
@[ext] structure RxState (capacity : ℕ) where
  circBuff : CircularBuffer UInt8 capacity
  calls : List RxCall
  deriving DecidableEq

/-- The size of the circular buffer of the source, in bytes. -/
def rxCircBuffSize : ℕ := 1024

variable {capacity : ℕ}

/-- The call handing on the frame of a packet. -/
def UartCanData.rxCall (d : UartCanData) : RxCall := ⟨d.frameId, d.dataLen, d.data⟩

namespace RxState

/-- Nothing received yet. -/
def empty : RxState capacity := ⟨.empty, []⟩

/-- The whole stream `s` at once, in a buffer with room for it. -/
def ofStream (s : List UInt8) : RxState s.length := ⟨⟨s, le_rfl⟩, []⟩

/-- The bytes in the buffer. -/
abbrev bytes (st : RxState capacity) : List UInt8 := st.circBuff.elems

/-- `CanSerialPort::OnDataReceived` (but for its notification). -/
def onDataReceived (st : RxState capacity) (data : List UInt8) : RxState capacity :=
  { st with circBuff := st.circBuff.insertEnd data }

/-- `CanSerialPort::AddToRxQueue`, handing the frame on. -/
def addToRxQueue (st : RxState capacity) (call : RxCall) : RxState capacity :=
  { st with calls := st.calls ++ [call] }

/-- Drop the first `n` bytes of the buffer. -/
def erase (st : RxState capacity) (n : ℕ) : RxState capacity :=
  { st with circBuff := st.circBuff.eraseBegin n }

/-- A packet fits: the condition of both loops. -/
def packetFits (st : RxState capacity) : Bool := sizeofUartCanData ≤ st.circBuff.size

/-- A state is its bytes, and its calls. -/
theorem ext_bytes {st st' : RxState capacity} (hb : st.bytes = st'.bytes)
    (hc : st.calls = st'.calls) : st = st' :=
  RxState.ext (CircularBuffer.ext hb) hc

end RxState

variable (crc16Modbus : List UInt8 → UInt16)

/-- The body of the inner loop of `ProcessReceivedFrames`. -/
def processFront (st : RxState capacity) : Option (RxState capacity) := do
  let uartData ← (load st.bytes 0 sizeofUartCanData).toOption
  let d := UartCanData.ofBytes uartData
  if d.magicNumber = magicNumberRecvDataFromCanBus then
    let crc := crc16Modbus (uartData.take (sizeofUartCanData - 2))
    -- On a mismatch, the source only logs the packet before it drops it.
    let st := if crc = d.crc then st.addToRxQueue d.rxCall else st
    some (st.erase sizeofUartCanData)
  else
    some (st.erase 1)

/-- `CanDeviceStm32::ProcessReceivedFrames`, each of its loops iterating at most
    `fuel` times. -/
def processReceivedFrames (fuel : ℕ) (st : RxState capacity) : Option (RxState capacity) :=
  whileLoop RxState.packetFits (doWhile RxState.packetFits (processFront crc16Modbus) fuel) fuel st

/-! ## The scanner of the receiver -/

/-- The bytes `w` are a valid packet: the receive magic, and the right checksum. -/
def IsRxPacket (w : List UInt8) : Prop :=
  (UartCanData.ofBytes w).magicNumber = magicNumberRecvDataFromCanBus ∧
    crc16Modbus (w.take (sizeofUartCanData - 2)) = (UartCanData.ofBytes w).crc

instance (w : List UInt8) : Decidable (IsRxPacket crc16Modbus w) :=
  inferInstanceAs (Decidable (_ ∧ _))

/-- The receiver as a resynchronising scanner. -/
def frameScanner : Scanner UInt8 RxCall where
  pattern := toLe 4 magicNumberRecvDataFromCanBus.toNat
  width := sizeofUartCanData
  emit w :=
    if crc16Modbus (w.take (sizeofUartCanData - 2)) = (UartCanData.ofBytes w).crc then
      some (UartCanData.ofBytes w).rxCall
    else none
  pattern_ne_nil := by decide
  pattern_length_le := by decide

/-- Bytes open with the receive magic iff it is the magic number of the packet
    they make up. -/
theorem magic_prefix_iff {bs : List UInt8} (h : sizeofUartCanData ≤ bs.length) :
    (frameScanner crc16Modbus).pattern <+: bs ↔
      (UartCanData.ofBytes (bs.take sizeofUartCanData)).magicNumber =
        magicNumberRecvDataFromCanBus := by
  have hlen : (bs.take sizeofUartCanData).length = sizeofUartCanData := List.length_take_of_le h
  have hbytes := UartCanData.toBytes_ofBytes hlen
  generalize UartCanData.ofBytes (bs.take sizeofUartCanData) = d at hbytes ⊢
  have hd : toLe 4 d.magicNumber.toNat <+: bs :=
    (hbytes ▸ d.magicNumber_prefix_toBytes).trans (List.take_prefix _ _)
  constructor
  · intro hp
    have hprefix := List.prefix_of_prefix_length_le hd hp (by simp [frameScanner])
    have := hprefix.eq_of_length (by simp [frameScanner])
    exact UInt32.toNat_inj.1 (toLe_injective d.magicNumber.toNat_lt
      magicNumberRecvDataFromCanBus.toNat_lt this)
  · rintro hm
    rwa [hm] at hd

/-- The valid packet handing on the frame of `call`. -/
def rxPacket (call : RxCall) : UartCanData :=
  let d : UartCanData :=
    { magicNumber := magicNumberRecvDataFromCanBus
      frameId := call.frameId
      dataLen := call.dataLen
      data := call.data
      crc := 0 }
  { d with crc := crc16Modbus d.body }

theorem rxCall_rxPacket (call : RxCall) : (rxPacket crc16Modbus call).rxCall = call := rfl

theorem isRxPacket_rxPacket (call : RxCall) :
    IsRxPacket crc16Modbus (rxPacket crc16Modbus call).toBytes := by
  rw [IsRxPacket, UartCanData.ofBytes_toBytes, UartCanData.take_toBytes]
  exact ⟨rfl, rfl⟩

/-- A packet with the receive magic and the right checksum is determined by the
    frame it hands on. -/
theorem eq_rxPacket {d : UartCanData} (hmagic : d.magicNumber = magicNumberRecvDataFromCanBus)
    (hcrc : crc16Modbus d.body = d.crc) : d = rxPacket crc16Modbus d.rxCall := by
  obtain ⟨magic, id, len, data, crc⟩ := d
  subst hmagic
  exact congrArg (UartCanData.mk _ id len data) hcrc.symm

theorem IsRxPacket.eq_toBytes {w : List UInt8} (h : IsRxPacket crc16Modbus w)
    (hlen : w.length = sizeofUartCanData) :
    w = (rxPacket crc16Modbus (UartCanData.ofBytes w).rxCall).toBytes := by
  have hw := UartCanData.toBytes_ofBytes hlen
  have hbody : w.take (sizeofUartCanData - 2) = (UartCanData.ofBytes w).body := by
    conv_lhs => rw [← hw]
    exact UartCanData.take_toBytes _
  rw [← eq_rxPacket crc16Modbus h.1 (hbody ▸ h.2), hw]

/-- The packets of the scanner are the valid packets, and emit their frames. -/
theorem packet_iff {w : List UInt8} {call : RxCall} :
    (frameScanner crc16Modbus).Packet w call ↔ w = (rxPacket crc16Modbus call).toBytes := by
  constructor
  · rintro ⟨hlen, hit, hemit⟩
    have hw : w.take sizeofUartCanData = w := List.take_of_length_le hlen.le
    have hmagic := (magic_prefix_iff crc16Modbus hlen.ge).1 hit
    rw [hw] at hmagic
    simp only [frameScanner, Option.ite_none_right_eq_some, Option.some.injEq] at hemit
    rw [← hemit.2]
    exact IsRxPacket.eq_toBytes crc16Modbus ⟨hmagic, hemit.1⟩ hlen
  · rintro rfl
    have hvalid := isRxPacket_rxPacket crc16Modbus call
    refine ⟨UartCanData.length_toBytes _,
      (rxPacket crc16Modbus call).magicNumber_prefix_toBytes, ?_⟩
    simp only [frameScanner, hvalid.2, if_true, UartCanData.ofBytes_toBytes, rxCall_rxPacket]

/-- Packets of the scanner are told apart by what they emit. -/
theorem packet_injective {w w' : List UInt8} {call : RxCall}
    (h : (frameScanner crc16Modbus).Packet w call)
    (h' : (frameScanner crc16Modbus).Packet w' call) : w = w' :=
  ((packet_iff crc16Modbus).1 h).trans ((packet_iff crc16Modbus).1 h').symm

/-- What the scanner emits at the front of the buffer. -/
theorem output_eq {bs : List UInt8} (h : sizeofUartCanData ≤ bs.length) :
    (frameScanner crc16Modbus).output bs =
      if IsRxPacket crc16Modbus (bs.take sizeofUartCanData) then
        [(UartCanData.ofBytes (bs.take sizeofUartCanData)).rxCall]
      else [] := by
  by_cases hm : (frameScanner crc16Modbus).pattern <+: bs
  · rw [Scanner.output_of_hit _ hm]
    simp only [IsRxPacket, (magic_prefix_iff crc16Modbus h).1 hm, true_and]
    simp only [frameScanner]
    split <;> rfl
  · rw [Scanner.output_of_miss _ hm, if_neg fun hp => hm ((magic_prefix_iff crc16Modbus h).2 hp.1)]

/-- The body of the loop is one look of the scanner. -/
theorem processFront_eq {st : RxState capacity} (h : st.packetFits = true) :
    processFront crc16Modbus st = some
      { circBuff := st.circBuff.eraseBegin ((frameScanner crc16Modbus).advance st.bytes)
        calls := st.calls ++ (frameScanner crc16Modbus).output st.bytes } := by
  have hle : sizeofUartCanData ≤ st.bytes.length := of_decide_eq_true h
  have hload : load st.bytes 0 sizeofUartCanData = .ok (st.bytes.take sizeofUartCanData) :=
    load_of_le (by omega)
  rw [processFront, hload, output_eq crc16Modbus hle]
  simp only [Except.toOption, Option.bind_eq_bind, Option.bind_some]
  split
  · rename_i hm
    rw [Scanner.advance_of_hit _ ((magic_prefix_iff crc16Modbus hle).2 hm)]
    simp only [IsRxPacket, hm, true_and]
    split
    · rfl
    · rw [List.append_nil]; rfl
  · rename_i hm
    rw [Scanner.advance_of_miss _ fun hp => hm ((magic_prefix_iff crc16Modbus hle).1 hp),
      if_neg fun hp => hm hp.1, List.append_nil]
    rfl

/-- The state after the scan of the whole buffer. -/
def RxState.scanned (st : RxState capacity) : RxState capacity where
  circBuff := ⟨((frameScanner crc16Modbus).scan st.bytes).2,
    ((frameScanner crc16Modbus).residue_suffix st.bytes).length_le.trans st.circBuff.size_le⟩
  calls := st.calls ++ ((frameScanner crc16Modbus).scan st.bytes).1

@[simp] theorem RxState.bytes_scanned (st : RxState capacity) :
    (st.scanned crc16Modbus).bytes = ((frameScanner crc16Modbus).scan st.bytes).2 := rfl

@[simp] theorem RxState.calls_scanned (st : RxState capacity) :
    (st.scanned crc16Modbus).calls =
      st.calls ++ ((frameScanner crc16Modbus).scan st.bytes).1 := rfl

/-- A buffer too short for a packet has been scanned. -/
theorem RxState.scanned_of_not_fits {st : RxState capacity} (h : st.packetFits = false) :
    st.scanned crc16Modbus = st := by
  have hlt : st.bytes.length < sizeofUartCanData := not_le.1 (of_decide_eq_false h)
  have hscan := (frameScanner crc16Modbus).scan_of_lt hlt
  apply RxState.ext_bytes
  · rw [bytes_scanned, hscan]
  · rw [calls_scanned, hscan, List.append_nil]

/-- The body of the loop makes the buffer shrink, and leaves the same to be scanned. -/
theorem processFront_step {st : RxState capacity} (h : st.packetFits = true) :
    ∃ st', processFront crc16Modbus st = some st' ∧
      st'.scanned crc16Modbus = st.scanned crc16Modbus ∧ st'.circBuff.size < st.circBuff.size := by
  have hle : sizeofUartCanData ≤ st.bytes.length := of_decide_eq_true h
  have hscan := (frameScanner crc16Modbus).scan_of_le hle
  have ha := (frameScanner crc16Modbus).advance_pos st.bytes
  refine ⟨_, processFront_eq crc16Modbus h, RxState.ext_bytes ?_ ?_, ?_⟩
  · rw [RxState.bytes_scanned, RxState.bytes_scanned, hscan]
    rfl
  · rw [RxState.calls_scanned, RxState.calls_scanned, hscan, ← List.append_assoc]
    rfl
  · have hpos : 0 < st.bytes.length := lt_of_lt_of_le (by decide) hle
    rw [CircularBuffer.size, CircularBuffer.elems_eraseBegin, List.length_drop]
    exact Nat.sub_lt hpos ha

/-- `ProcessReceivedFrames` returns, having scanned the whole buffer. -/
theorem processReceivedFrames_eq {fuel : ℕ} {st : RxState capacity} (h : st.circBuff.size < fuel) :
    processReceivedFrames crc16Modbus fuel st = some (st.scanned crc16Modbus) := by
  -- Both loops keep what is left to be scanned, and shrink the buffer.
  have inner : ∀ s : RxState capacity,
      (s.scanned crc16Modbus = st.scanned crc16Modbus ∧ s.circBuff.size < fuel) →
      s.packetFits = true →
      ∃ t, doWhile RxState.packetFits (processFront crc16Modbus) fuel s = some t ∧
        (t.scanned crc16Modbus = st.scanned crc16Modbus ∧ t.circBuff.size < fuel) ∧
        t.circBuff.size < s.circBuff.size := by
    intro s ⟨hs, hfuel⟩ hg
    obtain ⟨t, hst, ht, -, hlt⟩ := doWhile_total
      (I := fun t => t.scanned crc16Modbus = st.scanned crc16Modbus)
      (v := fun t : RxState capacity => t.circBuff.size) (fun s hs hg => by
        obtain ⟨t, hst, ht, hlt⟩ := processFront_step crc16Modbus hg
        exact ⟨t, hst, ht.trans hs, hlt⟩) hs hg hfuel
    exact ⟨t, hst, ⟨ht, by omega⟩, hlt⟩
  obtain ⟨t, hst, ⟨ht, -⟩, hg⟩ := whileLoop_total inner ⟨rfl, h⟩ h
  rw [processReceivedFrames, hst, ← ht, RxState.scanned_of_not_fits crc16Modbus hg]

end QustomKeyboard
