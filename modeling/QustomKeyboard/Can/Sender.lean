import QustomKeyboard.Can.UartCanData
import QustomKeyboard.Theory.Memory

/-!
# Sending CAN frames

A frame to be sent is put into a queue (`addToTxQueue`), as a `CanData` made
from the caller's buffer, and taken from there by the worker thread, which lays
it out as a packet in a buffer on its stack (`prepareSendDataFormat`).

The accesses to the buffers are those of `Theory.Memory`: an access out of
bounds is a fault. The constructor of `CanData` clamps its *parameter*
`data_len`, which hides the member of the same name; the member keeps the
length it was initialised with. So a frame passes the pipeline within the
bounds of its buffers iff its caller has asked for at most eight bytes
(`transmitted_iff`).
-/

namespace QustomKeyboard

open Theory

/-- The most frames in the queue. -/
abbrev txQueueMaxSize : ℕ := 100

/-- The size of the buffer on the stack of `SendPendingCanFrames`. -/
abbrev canSerialTxBufferSize : ℕ := 64

/-- A frame to be sent. -/
structure CanData where
  frameId : UInt32
  dataLen : UInt8
  data : Vector UInt8 maxCanFrameDataLen
  deriving DecidableEq

/-- The constructor of `CanData`, from a buffer (or a null pointer) `data_`. -/
def CanData.new (frameId_ : UInt32) (data_len : UInt8) (data_ : Option (List UInt8)) :
    Except Fault CanData := do
  -- The parameter is clamped, after the member has been initialised with it.
  let clamped := if maxCanFrameDataLen < data_len.toNat then maxCanFrameDataLen else data_len.toNat
  let copied ← match data_ with
    | some buffer => load buffer 0 clamped
    | none => .ok []
  return { frameId := frameId_, dataLen := data_len, data := .ofFn fun i => copied.getD i 0 }

/-- Push `a`, then drop the oldest element if the queue has become too long. -/
def pushTx {α : Type*} (queue : List α) (a : α) : List α :=
  let queue := queue ++ [a]
  if txQueueMaxSize < queue.length then queue.tail else queue

theorem pushTx_of_lt {α : Type*} {queue : List α} (h : queue.length < txQueueMaxSize) (a : α) :
    pushTx queue a = queue ++ [a] :=
  if_neg (by rw [List.length_append, List.length_singleton]; exact Nat.not_lt.2 h)

/-- A full queue loses its oldest element. -/
theorem pushTx_of_le {α : Type*} {b : α} {bs : List α} (h : txQueueMaxSize ≤ (b :: bs).length)
    (a : α) : pushTx (b :: bs) a = bs ++ [a] :=
  if_pos (by rw [List.length_append, List.length_singleton]; exact Nat.lt_succ_of_le h)

/-- What a push does: the new element is the last one, and if the queue is full,
    the first one is dropped. -/
theorem pushTx_cases {α : Type*} (queue : List α) (a : α) :
    (queue.length < txQueueMaxSize ∧ pushTx queue a = queue ++ [a]) ∨
      ∃ b bs, queue = b :: bs ∧ txQueueMaxSize ≤ queue.length ∧ pushTx queue a = bs ++ [a] := by
  rcases Nat.lt_or_ge queue.length txQueueMaxSize with h | h
  · exact .inl ⟨h, pushTx_of_lt h a⟩
  · cases queue with
    | nil => exact absurd h (Nat.not_le.2 (Nat.succ_pos _))
    | cons b bs => exact .inr ⟨b, bs, rfl, h, pushTx_of_le h a⟩

theorem getLast_pushTx {α : Type*} (queue : List α) (a : α) :
    (pushTx queue a).getLast? = some a := by
  obtain ⟨-, h⟩ | ⟨b, bs, -, -, h⟩ := pushTx_cases queue a
  all_goals rw [h, List.getLast?_concat]

theorem pushTx_ne_nil {α : Type*} (queue : List α) (a : α) : pushTx queue a ≠ [] := by
  intro h
  have := getLast_pushTx queue a
  rw [h] at this
  cases this

/-- `CanSerialPort::AddToTxQueue` (but for its notification): the queue after it. -/
def addToTxQueue (queue : List CanData) (frameId : UInt32) (dataLen : UInt8)
    (data : Option (List UInt8)) : Except Fault (List CanData) :=
  if data = none ∨ dataLen = 0 then .ok queue
  else do
    let frame ← CanData.new frameId dataLen data
    return pushTx queue frame

/-- What `PrepareSendDataFormat` returns, and leaves in its output buffer. -/
structure SendFormat where
  out : List UInt8
  size : ℕ
  removeFromQueue : Bool
  deriving DecidableEq

variable (crc16Modbus : List UInt8 → UInt16)

/-- `CanDeviceStm32::PrepareSendDataFormat`: the fields of the packet are written
    into `out` one by one. -/
def prepareSendDataFormat (dataPtr : CanData) (out : List UInt8) (maxSize : ℕ) :
    Except Fault SendFormat :=
  if maxSize < sizeofUartCanData then .error .assertion
  else do
    let out ← store out 0 (toLe 4 magicNumberSendDataToCanBus.toNat)
    let out ← store out 4 (toLe 4 dataPtr.frameId.toNat)
    let out ← store out 8 [dataPtr.dataLen]
    let out ← memcpy out 9 dataPtr.data.toList 0 dataPtr.dataLen.toNat
    let body ← load out 0 (sizeofUartCanData - 2)
    let out ← store out 17 (toLe 2 (crc16Modbus body).toNat)
    return { out := out, size := sizeofUartCanData, removeFromQueue := true }

/-! ## The packet of a frame -/

/-- The data field of the packet of `d`: its data over those in the buffer before. -/
def CanData.dataOver (d : CanData) (old : Vector UInt8 maxCanFrameDataLen) :
    Vector UInt8 maxCanFrameDataLen :=
  .ofFn fun i => if i < d.dataLen.toNat then d.data[i] else old[i]

/-- The packet of the frame `d`, in a buffer with `old` in the place of its data field. -/
def txPacket (d : CanData) (old : Vector UInt8 maxCanFrameDataLen) : UartCanData :=
  let packet : UartCanData :=
    { magicNumber := magicNumberSendDataToCanBus
      frameId := d.frameId
      dataLen := d.dataLen
      data := d.dataOver old
      crc := 0 }
  { packet with crc := crc16Modbus packet.body }

theorem CanData.toList_dataOver (d : CanData) (old : Vector UInt8 maxCanFrameDataLen) :
    (d.dataOver old).toList =
      d.data.toList.take d.dataLen.toNat ++ old.toList.drop d.dataLen.toNat := by
  apply List.ext_getElem
  · simp only [Vector.length_toList, List.length_append, List.length_take, List.length_drop]
    omega
  · intro i hi _
    rw [Vector.length_toList] at hi
    rw [List.getElem_append]
    split
    · rename_i h
      rw [List.length_take] at h
      simp [dataOver, show i < d.dataLen.toNat by omega]
    · rename_i h
      rw [List.length_take, Vector.length_toList] at h
      have hge : d.dataLen.toNat ≤ i := by omega
      simp [dataOver, hge, Nat.add_sub_cancel' hge, Nat.min_eq_left (hge.trans hi.le)]

/-- The packet has the data of the frame. -/
theorem CanData.take_dataOver {d : CanData} (hlen : d.dataLen.toNat ≤ maxCanFrameDataLen)
    (old : Vector UInt8 maxCanFrameDataLen) :
    (d.dataOver old).toList.take d.dataLen.toNat = d.data.toList.take d.dataLen.toNat := by
  rw [CanData.toList_dataOver, List.take_left' (by simpa using hlen)]

/-- The fields before the data field. -/
def txHeader (d : CanData) : List UInt8 :=
  toLe 4 magicNumberSendDataToCanBus.toNat ++ (toLe 4 d.frameId.toNat ++ [d.dataLen])

@[simp] theorem length_txHeader (d : CanData) : (txHeader d).length = 9 := by simp [txHeader]

/-- The fields before the data field are written first. -/
theorem prepareSendDataFormat_header {d : CanData} {m i after : List UInt8} {l : UInt8}
    {maxSize : ℕ} (hm : m.length = 4) (hi : i.length = 4) (hmax : sizeofUartCanData ≤ maxSize) :
    prepareSendDataFormat crc16Modbus d (m ++ (i ++ ([l] ++ after))) maxSize = (do
      let out ← memcpy (txHeader d ++ after) 9 d.data.toList 0 d.dataLen.toNat
      let body ← load out 0 (sizeofUartCanData - 2)
      let out ← store out 17 (toLe 2 (crc16Modbus body).toNat)
      return { out := out, size := sizeofUartCanData, removeFromQueue := true }) := by
  have h₁ : store (m ++ (i ++ ([l] ++ after))) 0 (toLe 4 magicNumberSendDataToCanBus.toNat) =
      .ok (toLe 4 magicNumberSendDataToCanBus.toNat ++ (i ++ ([l] ++ after))) :=
    store_front (by rw [hm, length_toLe])
  have h₂ : store (toLe 4 magicNumberSendDataToCanBus.toNat ++ (i ++ ([l] ++ after))) 4
        (toLe 4 d.frameId.toNat) =
      .ok (toLe 4 magicNumberSendDataToCanBus.toNat ++
        (toLe 4 d.frameId.toNat ++ ([l] ++ after))) :=
    store_between (length_toLe _ _) (by rw [hi, length_toLe])
  have h₃ : store (toLe 4 magicNumberSendDataToCanBus.toNat ++
        (toLe 4 d.frameId.toNat ++ ([l] ++ after))) 8 [d.dataLen] =
      .ok (txHeader d ++ after) := by
    have := @store_between _ (toLe 4 magicNumberSendDataToCanBus.toNat ++ toLe 4 d.frameId.toNat)
      [l] after [d.dataLen] 8 (by simp) rfl
    simpa [txHeader] using this
  rw [prepareSendDataFormat, if_neg (not_lt.2 hmax), h₁]
  simp only [bind, Except.bind, h₂, h₃]

/-- A longer frame makes it read past the data of the frame. -/
theorem prepareSendDataFormat_of_lt {d : CanData} {out : List UInt8} {maxSize : ℕ}
    (hlen : maxCanFrameDataLen < d.dataLen.toNat) (hmax : sizeofUartCanData ≤ maxSize)
    (hout : sizeofUartCanData ≤ out.length) :
    prepareSendDataFormat crc16Modbus d out maxSize = .error .load := by
  obtain ⟨m, i, l, v, c, hcut, hm, hi, -, -⟩ :=
    UartCanData.exists_fields (List.length_take_of_le hout)
  have hshape : out = m ++ (i ++ ([l] ++ (v ++ c ++ out.drop sizeofUartCanData))) := by
    conv_lhs => rw [← List.take_append_drop sizeofUartCanData out, hcut]
    simp
  rw [hshape, prepareSendDataFormat_header crc16Modbus hm hi hmax,
    memcpy_of_lt (by simpa using hlen)]
  rfl

/-- Within the bounds, the packet is laid out over the first bytes of the buffer,
    the rest of which is kept. -/
theorem prepareSendDataFormat_eq {d : CanData} {out : List UInt8} {maxSize : ℕ}
    (hlen : d.dataLen.toNat ≤ maxCanFrameDataLen) (hmax : sizeofUartCanData ≤ maxSize)
    (hout : sizeofUartCanData ≤ out.length) :
    prepareSendDataFormat crc16Modbus d out maxSize = .ok
      { out :=
          (txPacket crc16Modbus d
            (UartCanData.ofBytes (out.take sizeofUartCanData)).data).toBytes ++
            out.drop sizeofUartCanData
        size := sizeofUartCanData
        removeFromQueue := true } := by
  obtain ⟨m, i, l, v, c, hcut, hm, hi, hv, hc⟩ :=
    UartCanData.exists_fields (List.length_take_of_le hout)
  have hdata : (UartCanData.ofBytes (out.take sizeofUartCanData)).data.toList = v := by
    rw [hcut, UartCanData.ofBytes_append hm hi hv hc]
    rfl
  generalize (UartCanData.ofBytes (out.take sizeofUartCanData)).data = old at hdata ⊢
  generalize hrest : out.drop sizeofUartCanData = rest
  -- The data field is cut at the length of the frame.
  have hshape : out = m ++ (i ++ ([l] ++ (v.take d.dataLen.toNat ++
      (v.drop d.dataLen.toNat ++ (c ++ rest))))) := by
    conv_lhs => rw [← List.take_append_drop sizeofUartCanData out, hcut, hrest]
    rw [← List.append_assoc (v.take _), List.take_append_drop]
    simp
  have hbody : (txPacket crc16Modbus d old).body = txHeader d ++ (d.dataOver old).toList := by
    simp [UartCanData.body, txHeader, txPacket]
  have hcopy : memcpy (txHeader d ++ (v.take d.dataLen.toNat ++
        (v.drop d.dataLen.toNat ++ (c ++ rest)))) 9 d.data.toList 0 d.dataLen.toNat =
      .ok ((txPacket crc16Modbus d old).body ++ (c ++ rest)) := by
    rw [memcpy_of_le (by simpa using hlen), List.drop_zero, store_between (length_txHeader d)
      (by simp [hv]), hbody, CanData.toList_dataOver, hdata]
    simp
  have hload : load ((txPacket crc16Modbus d old).body ++ (c ++ rest)) 0 (sizeofUartCanData - 2) =
      .ok (txPacket crc16Modbus d old).body :=
    load_front (UartCanData.length_body _)
  have hstore : store ((txPacket crc16Modbus d old).body ++ (c ++ rest)) 17
        (toLe 2 (crc16Modbus (txPacket crc16Modbus d old).body).toNat) =
      .ok ((txPacket crc16Modbus d old).toBytes ++ rest) := by
    rw [store_between (UartCanData.length_body _) (by rw [hc, length_toLe]), ← List.append_assoc]
    rfl
  rw [hshape, prepareSendDataFormat_header crc16Modbus hm hi hmax, hcopy]
  simp only [bind, Except.bind, hload, hstore]
  rfl

/-! ## The bounds -/

/-- The frame that `CanData` holds for a caller: the length asked for, and its
    bytes, as far as there is room. -/
def clampedFrame (frameId : UInt32) (dataLen : UInt8) (data : List UInt8) : CanData where
  frameId := frameId
  dataLen := dataLen
  data := .ofFn fun i => (data.take (min dataLen.toNat maxCanFrameDataLen)).getD i 0

theorem toList_clampedFrame {frameId : UInt32} {dataLen : UInt8} {data : List UInt8}
    (hlen : dataLen.toNat ≤ maxCanFrameDataLen) (hdata : data.length = dataLen.toNat) :
    (clampedFrame frameId dataLen data).data.toList.take dataLen.toNat = data := by
  apply List.ext_getElem
  · simpa [hdata] using hlen
  · intro i hi hi'
    rw [hdata] at hi'
    simp [clampedFrame, hdata, hi', hi'.trans_le hlen]

/-- With a buffer of the length asked for, the constructor does not fault. -/
theorem CanData.new_eq {frameId : UInt32} {dataLen : UInt8} {data : List UInt8}
    (hdata : data.length = dataLen.toNat) :
    CanData.new frameId dataLen (some data) = .ok (clampedFrame frameId dataLen data) := by
  have hclamp : (if maxCanFrameDataLen < dataLen.toNat then maxCanFrameDataLen else dataLen.toNat) =
      min dataLen.toNat maxCanFrameDataLen := by
    split <;> omega
  have hload : load data 0 (min dataLen.toNat maxCanFrameDataLen) =
      .ok (data.take (min dataLen.toNat maxCanFrameDataLen)) :=
    load_of_le (by omega)
  simp only [CanData.new, hclamp, hload]
  rfl

/-- The frame passes the pipeline within bounds: after `AddToTxQueue`, the last
    frame of the queue has at most eight bytes, `PrepareSendDataFormat` reads
    nothing but its data and writes nothing but the first 19 bytes of `out`, and
    its packet has the length and the bytes of the caller, clamped to eight. -/
def Transmitted (queue : List CanData) (frameId : UInt32) (dataLen : UInt8)
    (data out : List UInt8) : Prop :=
  ∃ queue' d r, addToTxQueue queue frameId dataLen (some data) = .ok queue' ∧
    queue'.getLast? = some d ∧ d.dataLen.toNat ≤ maxCanFrameDataLen ∧
    prepareSendDataFormat crc16Modbus d out canSerialTxBufferSize = .ok r ∧
    r.size = sizeofUartCanData ∧
    r.out.drop sizeofUartCanData = out.drop sizeofUartCanData ∧
    (UartCanData.ofBytes (r.out.take sizeofUartCanData)).frameId = frameId ∧
    (UartCanData.ofBytes (r.out.take sizeofUartCanData)).dataLen.toNat =
      min dataLen.toNat maxCanFrameDataLen ∧
    (UartCanData.ofBytes (r.out.take sizeofUartCanData)).data.toList.take
      (min dataLen.toNat maxCanFrameDataLen) = data.take (min dataLen.toNat maxCanFrameDataLen)

/-- A frame passes the pipeline within bounds iff its caller has asked for at
    most eight bytes. -/
theorem transmitted_iff (queue : List CanData) (frameId : UInt32) {dataLen : UInt8}
    (hpos : 0 < dataLen.toNat) {data out : List UInt8} (hdata : data.length = dataLen.toNat)
    (hout : out.length = canSerialTxBufferSize) :
    Transmitted crc16Modbus queue frameId dataLen data out ↔
      dataLen.toNat ≤ maxCanFrameDataLen := by
  have hne : ¬(some data = none ∨ dataLen = 0) := by
    rintro (h | rfl)
    · cases h
    · exact absurd hpos (by decide)
  have hadd : addToTxQueue queue frameId dataLen (some data) =
      .ok (pushTx queue (clampedFrame frameId dataLen data)) := by
    rw [addToTxQueue, if_neg hne, CanData.new_eq hdata]
    rfl
  constructor
  · -- The frame in the queue keeps the length asked for.
    rintro ⟨queue', d, -, hq, hd, hle, -⟩
    rw [hadd] at hq
    obtain rfl := Except.ok.inj hq
    rw [getLast_pushTx] at hd
    obtain rfl := Option.some.inj hd
    exact hle
  · intro hle
    have hmin : min dataLen.toNat maxCanFrameDataLen = dataLen.toNat := min_eq_left hle
    have hprep := @prepareSendDataFormat_eq crc16Modbus (clampedFrame frameId dataLen data) out
      canSerialTxBufferSize hle (by decide) (by rw [hout]; decide)
    refine ⟨_, _, _, hadd, getLast_pushTx _ _, hle, hprep, rfl, ?_, ?_⟩
    · exact List.drop_left' (UartCanData.length_toBytes _)
    rw [List.take_left' (UartCanData.length_toBytes _), UartCanData.ofBytes_toBytes, hmin]
    refine ⟨rfl, rfl, ?_⟩
    rw [← hdata, List.take_length, hdata]
    exact (CanData.take_dataOver (d := clampedFrame frameId dataLen data) hle _).trans
      (toList_clampedFrame hle hdata)

/-- Two bytes are transmitted. -/
theorem transmitted_iff_two :
    Transmitted modbusCrc [] 0x123 2 [0xAA, 0xBB] (List.replicate 64 0) ↔
      (2 : UInt8).toNat ≤ maxCanFrameDataLen :=
  transmitted_iff modbusCrc [] 0x123 (by decide) (by decide) (by decide)

/-- A frame of nine bytes is kept in the queue as one of nine bytes, and its
    ninth byte is read past the data of the frame. -/
theorem nine_bytes_read_past :
    (∃ queue' d, addToTxQueue [] 0x123 9 (some [1, 2, 3, 4, 5, 6, 7, 8, 9]) = .ok queue' ∧
      queue'.getLast? = some d ∧ d.dataLen = 9 ∧
      prepareSendDataFormat modbusCrc d (List.replicate 64 0) canSerialTxBufferSize =
        .error .load) ∧
    ¬ Transmitted modbusCrc [] 0x123 9 [1, 2, 3, 4, 5, 6, 7, 8, 9] (List.replicate 64 0) := by
  constructor
  · refine ⟨_, _, rfl, rfl, rfl, ?_⟩
    decide +kernel
  · rintro ⟨queue', d, -, hq, hd, hle, -⟩
    obtain rfl := Except.ok.inj hq
    obtain rfl := Option.some.inj hd
    exact absurd hle (by decide)

end QustomKeyboard
