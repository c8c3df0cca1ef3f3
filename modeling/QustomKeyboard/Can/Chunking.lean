import QustomKeyboard.Can.Receiver
import QustomKeyboard.Theory.Machine

/-!
# Reception in chunks

The serial port delivers a stream of bytes in chunks of any size, and the
worker thread looks at the buffer at any time: the receiver is a machine whose
events are the arrivals and the looks (`receiver`). A look also happens when
there is nothing new to see.

As long as the buffer does not overflow, none of this matters
(`chunking_independence`): what is handed on, and what is left, only depends
on the stream. `Tracks` is the simulation: at any time, the calls made and the
bytes left stand for the stream received so far.

What is handed on is a valid packet, but nothing checks its length byte: the
receiver hands on a frame of more than eight bytes exactly when it meets one
(`calls_fit_iff`).
-/

namespace QustomKeyboard

open Theory

variable {capacity : ℕ} (crc16Modbus : List UInt8 → UInt16)

/-- What happens to the receiver. -/
inductive RxEvent
  /-- The serial port delivers a chunk of bytes. -/
  | onDataReceived (data : List UInt8)
  /-- The worker thread looks at the buffer. -/
  | processReceivedFrames
  deriving DecidableEq

/-- The bytes delivered along some events. -/
def stream : List RxEvent → List UInt8
  | [] => []
  | .onDataReceived data :: es => data ++ stream es
  | .processReceivedFrames :: es => stream es

/-- The receiving side of the serial port. A look gets the fuel it needs (see
    `processReceivedFrames_eq`). -/
def receiver (capacity : ℕ) : Machine (RxState capacity) RxEvent where
  init := .empty
  step st
    | .onDataReceived data => some (st.onDataReceived data)
    | .processReceivedFrames => processReceivedFrames crc16Modbus (st.circBuff.size + 1) st

theorem step_processReceivedFrames (st : RxState capacity) :
    (receiver crc16Modbus capacity).step st .processReceivedFrames =
      some (st.scanned crc16Modbus) :=
  processReceivedFrames_eq crc16Modbus (Nat.lt_succ_self _)

/-- The receiver never gets stuck. -/
theorem receiver_total (st : RxState capacity) (e : RxEvent) :
    ∃ st', (receiver crc16Modbus capacity).step st e = some st' := by
  cases e with
  | onDataReceived data => exact ⟨_, rfl⟩
  | processReceivedFrames => exact ⟨_, step_processReceivedFrames crc16Modbus st⟩

/-- An arrival does not exceed the capacity of the buffer. -/
def NoOverflow (st : RxState capacity) : RxEvent → Prop
  | .onDataReceived data => st.circBuff.size + data.length ≤ capacity
  | .processReceivedFrames => True

instance (st : RxState capacity) : DecidablePred (NoOverflow st)
  | .onDataReceived _ => inferInstanceAs (Decidable (_ ≤ _))
  | .processReceivedFrames => inferInstanceAs (Decidable True)

/-! ## The simulation -/

/-- The receiver stands for the stream `s` received so far: its calls, followed
    by those of a scan of what is left, are those of a scan of `s`. -/
def Tracks (s : List UInt8) (st : RxState capacity) : Prop :=
  (frameScanner crc16Modbus).scan s =
    (st.calls ++ ((frameScanner crc16Modbus).scan st.bytes).1,
      ((frameScanner crc16Modbus).scan st.bytes).2)

variable {crc16Modbus}

theorem Tracks.onDataReceived {s data : List UInt8} {st : RxState capacity}
    (h : Tracks crc16Modbus s st) (hfit : st.circBuff.size + data.length ≤ capacity) :
    Tracks crc16Modbus (s ++ data) (st.onDataReceived data) := by
  have hbytes : (st.onDataReceived data).bytes = st.bytes ++ data :=
    CircularBuffer.elems_insertEnd_of_le hfit
  rw [Tracks] at h ⊢
  rw [hbytes, Scanner.scan_append, Scanner.scan_append _ st.bytes, h, List.append_assoc]
  rfl

theorem Tracks.scanned {s : List UInt8} {st : RxState capacity} (h : Tracks crc16Modbus s st) :
    Tracks crc16Modbus s (st.scanned crc16Modbus) := by
  rw [Tracks] at h ⊢
  rw [RxState.bytes_scanned, RxState.calls_scanned, Scanner.scan_residue, List.append_nil, h]

/-- A run without overflow keeps standing for the stream. -/
theorem Tracks.path {s : List UInt8} {st st' : RxState capacity} {es : List RxEvent}
    (h : Tracks crc16Modbus s st)
    (hrun : (receiver crc16Modbus capacity).Path NoOverflow st es st') :
    Tracks crc16Modbus (s ++ stream es) st' := by
  induction hrun generalizing s with
  | nil => rwa [stream, List.append_nil]
  | @cons st st₁ st' e es hstep hok _ ih =>
    cases e with
    | onDataReceived data =>
      obtain rfl := Option.some.inj hstep
      rw [stream, ← List.append_assoc]
      exact ih (h.onDataReceived hok)
    | processReceivedFrames =>
      obtain rfl := Option.some.inj ((step_processReceivedFrames crc16Modbus st).symm.trans hstep)
      exact ih h.scanned

theorem tracks_empty : Tracks crc16Modbus [] (.empty : RxState capacity) := rfl

variable (crc16Modbus)

/-! ## Chunking independence -/

/-- The call hands on the valid packet at the offset `i` of the stream `s`. -/
def DeliveredAt (s : List UInt8) (i : ℕ) (call : RxCall) : Prop :=
  i + sizeofUartCanData ≤ s.length ∧
    IsRxPacket crc16Modbus ((s.drop i).take sizeofUartCanData) ∧
    call = (UartCanData.ofBytes ((s.drop i).take sizeofUartCanData)).rxCall

/-- The calls hand on, in order, packets of `s` at the offsets `offs`, which do
    not overlap. -/
def DeliveredFrom (s : List UInt8) (offs : List ℕ) (calls : List RxCall) : Prop :=
  offs.Pairwise (fun i j => i + sizeofUartCanData ≤ j) ∧
    List.Forall₂ (DeliveredAt crc16Modbus s) offs calls

/-- A packet of the scanner is a valid packet of the stream. -/
theorem deliveredAt_of_emit {s : List UInt8} {i : ℕ} {call : RxCall}
    (hle : i + sizeofUartCanData ≤ s.length)
    (hit : (frameScanner crc16Modbus).pattern <+: s.drop i)
    (hemit : (frameScanner crc16Modbus).emit ((s.drop i).take sizeofUartCanData) = some call) :
    DeliveredAt crc16Modbus s i call := by
  have hlen : sizeofUartCanData ≤ (s.drop i).length := by
    rw [List.length_drop]; exact Nat.le_sub_of_add_le (by omega)
  have hmagic := (magic_prefix_iff crc16Modbus hlen).1 hit
  simp only [frameScanner, Option.ite_none_right_eq_some, Option.some.injEq] at hemit
  exact ⟨hle, ⟨hmagic, hemit.1⟩, hemit.2.symm⟩

/-- Whatever is scanned, the calls hand on disjoint packets, in order. -/
theorem scan_deliveredFrom (s : List UInt8) :
    ∃ offs, DeliveredFrom crc16Modbus s offs ((frameScanner crc16Modbus).scan s).1 := by
  obtain ⟨offs, hdisj, hback⟩ := (frameScanner crc16Modbus).scan_backed s
  exact ⟨offs, hdisj, hback.imp fun i call ⟨hle, hit, hemit⟩ =>
    deliveredAt_of_emit crc16Modbus hle hit hemit⟩

/-- However a stream is cut into chunks, and whenever the worker looks at the
    buffer, at least once at the end: as long as the buffer does not overflow,
    what is handed on and what is left are those of looking once at the whole
    stream. The frames handed on come, in order, from disjoint valid packets. -/
theorem chunking_independence (es : List RxEvent)
    (hfit : (receiver crc16Modbus capacity).Meets NoOverflow .empty es) :
    (∀ (st : RxState capacity) (fuel : ℕ), st.circBuff.size < fuel →
      ∃ st', processReceivedFrames crc16Modbus fuel st = some st') ∧
    ∃ (st : RxState capacity) (once : RxState (stream es).length),
      (receiver crc16Modbus capacity).run .empty (es ++ [.processReceivedFrames]) = some st ∧
      (∀ fuel, (stream es).length < fuel →
        processReceivedFrames crc16Modbus fuel (.ofStream (stream es)) = some once) ∧
      st.calls = once.calls ∧ st.bytes = once.bytes ∧
      st.bytes <:+ stream es ∧ st.bytes.length < sizeofUartCanData ∧
      ∃ offs, DeliveredFrom crc16Modbus (stream es) offs st.calls := by
  refine ⟨fun st fuel hfuel => ⟨_, processReceivedFrames_eq crc16Modbus hfuel⟩, ?_⟩
  obtain ⟨st, hst⟩ := Machine.run_of_total (receiver_total crc16Modbus) RxState.empty es
  have htrack : Tracks crc16Modbus (stream es) (st.scanned crc16Modbus) :=
    (tracks_empty.path (.of_meets hfit hst)).scanned
  rw [Tracks] at htrack
  rw [RxState.bytes_scanned, Scanner.scan_residue, List.append_nil] at htrack
  have hcalls : (st.scanned crc16Modbus).calls =
      ((frameScanner crc16Modbus).scan (stream es)).1 := (congrArg Prod.fst htrack).symm
  have hbytes : (st.scanned crc16Modbus).bytes =
      ((frameScanner crc16Modbus).scan (stream es)).2 := (congrArg Prod.snd htrack).symm
  refine ⟨st.scanned crc16Modbus, (RxState.ofStream (stream es)).scanned crc16Modbus, ?_,
    fun fuel hfuel => processReceivedFrames_eq crc16Modbus hfuel, hcalls, hbytes, ?_, ?_, ?_⟩
  · rw [Machine.run_append, hst, Option.bind_some, Machine.run, step_processReceivedFrames]
    rfl
  · exact hbytes ▸ Scanner.residue_suffix _ _
  · exact Scanner.residue_length_lt _ _
  · exact hcalls ▸ scan_deliveredFrom crc16Modbus (stream es)

/-- A packet arriving in two chunks behind a stray byte, the worker looking at the
    buffer in between. -/
def splitArrival : List RxEvent :=
  let packet := (rxPacket modbusCrc ⟨0x123, 2, #v[0x11, 0x22, 0, 0, 0, 0, 0, 0]⟩).toBytes
  [.onDataReceived (0xDE :: packet.take 7), .processReceivedFrames, .onDataReceived (packet.drop 7)]

theorem chunking_independence_split :
    ∃ st : RxState rxCircBuffSize,
      (receiver modbusCrc rxCircBuffSize).run .empty (splitArrival ++ [.processReceivedFrames]) =
        some st ∧ ∃ offs, DeliveredFrom modbusCrc (stream splitArrival) offs st.calls := by
  obtain ⟨-, st, once, hrun, -, -, -, -, -, hoffs⟩ :=
    @chunking_independence rxCircBuffSize modbusCrc splitArrival (by decide +kernel)
  exact ⟨st, hrun, hoffs⟩

/-! ## The length byte -/

/-- At a position where the scan of the buffer looks, there is a valid packet
    whose length byte exceeds its data field. -/
def OverlongAhead (bytes : List UInt8) : Prop :=
  ∃ i, (frameScanner crc16Modbus).Stop bytes i ∧ i + sizeofUartCanData ≤ bytes.length ∧
    IsRxPacket crc16Modbus ((bytes.drop i).take sizeofUartCanData) ∧
    maxCanFrameDataLen <
      (UartCanData.ofBytes ((bytes.drop i).take sizeofUartCanData)).dataLen.toNat

/-- A look at the buffer does not meet an overlong packet. -/
def NoOverlong (st : RxState capacity) : RxEvent → Prop
  | .onDataReceived _ => True
  | .processReceivedFrames => ¬OverlongAhead crc16Modbus st.bytes

/-- The bytes at which `data` points cover the length handed on. -/
def RxCall.Fits (call : RxCall) : Prop := call.dataLen.toNat ≤ maxCanFrameDataLen

instance (call : RxCall) : Decidable call.Fits := inferInstanceAs (Decidable (_ ≤ _))

/-- The frames of a scan are those of the valid packets at which it looks. -/
theorem mem_scan_iff_isRxPacket {bytes : List UInt8} {call : RxCall} :
    call ∈ ((frameScanner crc16Modbus).scan bytes).1 ↔
      ∃ i, (frameScanner crc16Modbus).Stop bytes i ∧ i + sizeofUartCanData ≤ bytes.length ∧
        IsRxPacket crc16Modbus ((bytes.drop i).take sizeofUartCanData) ∧
        (UartCanData.ofBytes ((bytes.drop i).take sizeofUartCanData)).rxCall = call := by
  rw [Scanner.mem_scan_iff]
  refine exists_congr fun i => and_congr_right fun _ => and_congr_right fun hle => ?_
  rw [output_eq crc16Modbus (by rw [List.length_drop]; exact Nat.le_sub_of_add_le' hle)]
  split
  · rename_i hp
    rw [List.mem_singleton, eq_comm]
    exact ⟨fun h => ⟨hp, h⟩, fun h => h.2⟩
  · rename_i hp
    exact ⟨fun h => absurd h List.not_mem_nil, fun h => absurd h.1 hp⟩

/-- The frames of a scan fit iff it does not meet an overlong packet. -/
theorem scan_fits_iff {bytes : List UInt8} :
    (∀ call ∈ ((frameScanner crc16Modbus).scan bytes).1, call.Fits) ↔
      ¬OverlongAhead crc16Modbus bytes := by
  constructor
  · rintro h ⟨i, hstop, hle, hp, hlong⟩
    exact absurd (h _ ((mem_scan_iff_isRxPacket crc16Modbus).2 ⟨i, hstop, hle, hp, rfl⟩))
      (not_le.2 hlong)
  · intro h call hcall
    obtain ⟨i, hstop, hle, hp, rfl⟩ := (mem_scan_iff_isRxPacket crc16Modbus).1 hcall
    exact not_lt.1 fun hlong => h ⟨i, hstop, hle, hp, hlong⟩

/-- Calls are never taken back. -/
theorem calls_subset {st st' : RxState capacity} {es : List RxEvent}
    (hrun : (receiver crc16Modbus capacity).run st es = some st') : st.calls ⊆ st'.calls := by
  refine (Machine.Path.of_run hrun).invariant (I := fun t => st.calls ⊆ t.calls) ?_
    (List.Subset.refl _)
  intro s t e hs _ hstep
  cases e with
  | onDataReceived data =>
    obtain rfl := Option.some.inj hstep
    exact hs
  | processReceivedFrames =>
    obtain rfl := Option.some.inj ((step_processReceivedFrames crc16Modbus s).symm.trans hstep)
    exact fun call hcall => List.mem_append_left _ (hs hcall)

/-- From a state all of whose calls fit, they still fit after a run iff no look
    at the buffer has met an overlong packet. -/
theorem fits_iff_of_run {st st' : RxState capacity} {es : List RxEvent}
    (hst : ∀ call ∈ st.calls, call.Fits)
    (hrun : (receiver crc16Modbus capacity).run st es = some st') :
    (∀ call ∈ st'.calls, call.Fits) ↔
      (receiver crc16Modbus capacity).Meets (NoOverlong crc16Modbus) st es := by
  induction es generalizing st with
  | nil =>
    obtain rfl := Option.some.inj hrun
    exact ⟨fun _ => trivial, fun _ => hst⟩
  | cons e es ih =>
    obtain ⟨u, hu, hrun⟩ := Option.bind_eq_some_iff.1 hrun
    rw [Machine.meets_cons hu]
    cases e with
    | onDataReceived data =>
      obtain rfl := Option.some.inj hu
      rw [@ih (st.onDataReceived data) hst hrun]
      exact ⟨fun h => ⟨trivial, h⟩, fun h => h.2⟩
    | processReceivedFrames =>
      obtain rfl := Option.some.inj ((step_processReceivedFrames crc16Modbus st).symm.trans hu)
      by_cases hfit : OverlongAhead crc16Modbus st.bytes
      · -- The overlong frame has been handed on for good.
        refine iff_of_false (fun h => ?_) fun h => h.1 hfit
        exact (scan_fits_iff crc16Modbus).1 (fun call hcall =>
          h call (calls_subset crc16Modbus hrun (List.mem_append_right _ hcall))) hfit
      · rw [ih ?_ hrun]
        · exact ⟨fun h => ⟨hfit, h⟩, fun h => h.2⟩
        · intro call hcall
          rcases List.mem_append.1 hcall with hcall | hcall
          · exact hst call hcall
          · exact (scan_fits_iff crc16Modbus).2 hfit call hcall

/-- Whatever arrives, in whatever chunks: all frames handed on describe bytes of
    the data field iff no look at the buffer meets an overlong packet. -/
theorem calls_fit_iff (es : List RxEvent) :
    ∃ st : RxState capacity, (receiver crc16Modbus capacity).run .empty es = some st ∧
      ((∀ call ∈ st.calls, call.Fits) ↔
        (receiver crc16Modbus capacity).Meets (NoOverlong crc16Modbus) .empty es) := by
  obtain ⟨st, hst⟩ := Machine.run_of_total (receiver_total crc16Modbus) RxState.empty es
  exact ⟨st, hst, fits_iff_of_run crc16Modbus (fun call hcall => absurd hcall List.not_mem_nil) hst⟩

/-- A packet with the receive magic and the right checksum, but nine data bytes. -/
def overlongArrival : List RxEvent :=
  [.onDataReceived (rxPacket modbusCrc ⟨0x123, 9, #v[1, 2, 3, 4, 5, 6, 7, 8]⟩).toBytes,
    .processReceivedFrames]

theorem overlong_call :
    ¬∀ (es : List RxEvent) (st : RxState rxCircBuffSize),
      (receiver modbusCrc rxCircBuffSize).run .empty es = some st →
      ∀ call ∈ st.calls, call.Fits := by
  intro h
  have hrun : (receiver modbusCrc rxCircBuffSize).run .empty overlongArrival =
      some ⟨.empty, [⟨0x123, 9, #v[1, 2, 3, 4, 5, 6, 7, 8]⟩]⟩ := by decide +kernel
  have := h _ _ hrun _ (List.mem_singleton_self _)
  exact absurd this (by decide)

end QustomKeyboard
