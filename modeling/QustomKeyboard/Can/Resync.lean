import QustomKeyboard.Can.Receiver

/-!
# Recovering from corrupted data

Bytes may get lost or garbled on the serial line, and the receiver has to find
back to the packets. Its magic number does not overlap itself
(`magic_unbordered`), so it is only misled by a magic number that does not
belong to an intact packet: the 19 bytes from it on are then dropped, even if
they reach into a packet.

* At most one packet is lost, whatever comes before the packets, if the magic
  number only occurs at their starts (`bounded_loss`).
* One packet may be lost, though: a truncated packet with a whole magic number
  makes the receiver drop the start of the packet after it (`truncated_frame_iff`).
-/

namespace QustomKeyboard

open Theory

variable (crc16Modbus : List UInt8 → UInt16)

/-- A valid packet. -/
structure RxFrame where
  bytes : List UInt8
  length_eq : bytes.length = sizeofUartCanData
  valid : IsRxPacket crc16Modbus bytes

/-- `ProcessReceivedFrames`, on a buffer holding the stream `s`, returns, having
    handed on `calls`, and left `rest` in the buffer. -/
def Receives (s : List UInt8) (calls : List RxCall) (rest : List UInt8) : Prop :=
  ∀ fuel, s.length < fuel → ∃ st : RxState s.length,
    processReceivedFrames crc16Modbus fuel (.ofStream s) = some st ∧
      st.calls = calls ∧ st.bytes = rest

/-- The receive magic stands at the offset `i` of `s`. -/
def MagicAt (s : List UInt8) (i : ℕ) : Prop :=
  toLe 4 magicNumberRecvDataFromCanBus.toNat <+: s.drop i

variable {crc16Modbus}

/-- What the receiver does is what its scanner does. -/
theorem receives_iff {s : List UInt8} {calls : List RxCall} {rest : List UInt8} :
    Receives crc16Modbus s calls rest ↔ (frameScanner crc16Modbus).scan s = (calls, rest) := by
  have heq := fun (fuel : ℕ) (h : s.length < fuel) =>
    @processReceivedFrames_eq _ crc16Modbus fuel (RxState.ofStream s) h
  constructor
  · intro h
    obtain ⟨st, hst, hcalls, hrest⟩ := h _ (Nat.lt_succ_self _)
    obtain rfl := Option.some.inj ((heq _ (Nat.lt_succ_self _)).symm.trans hst)
    exact Prod.ext hcalls hrest
  · intro h fuel hfuel
    exact ⟨_, heq fuel hfuel, congrArg Prod.fst h, congrArg Prod.snd h⟩

theorem receives_scan (s : List UInt8) :
    Receives crc16Modbus s ((frameScanner crc16Modbus).scan s).1
      ((frameScanner crc16Modbus).scan s).2 := receives_iff.2 rfl

namespace RxFrame

/-- The frame of a valid packet, as it is handed on. -/
def call (F : RxFrame crc16Modbus) : RxCall := (UartCanData.ofBytes F.bytes).rxCall

/-- Valid packets back to back. -/
def line (Fs : List (RxFrame crc16Modbus)) : List UInt8 := (Fs.map bytes).flatten

theorem packet (F : RxFrame crc16Modbus) : (frameScanner crc16Modbus).Packet F.bytes F.call :=
  (packet_iff crc16Modbus).2 (F.valid.eq_toBytes crc16Modbus F.length_eq)

theorem packets (Fs : List (RxFrame crc16Modbus)) :
    List.Forall₂ (frameScanner crc16Modbus).Packet (Fs.map bytes) (Fs.map call) := by
  rw [List.forall₂_map_left_iff, List.forall₂_map_right_iff]
  exact List.forall₂_same.2 fun F _ => F.packet

/-- The receiver hands on all of some valid packets back to back. -/
theorem scan_line (Fs : List (RxFrame crc16Modbus)) :
    (frameScanner crc16Modbus).scan (line Fs) = (Fs.map call, []) := by
  have h := Scanner.scan_packets (packets Fs) []
  rwa [List.append_nil, Scanner.scan_nil, List.append_nil] at h

end RxFrame

/-- The receive magic does not overlap itself. -/
theorem magic_unbordered : Scanner.Unbordered (frameScanner crc16Modbus).pattern := by
  show Scanner.Unbordered (toLe 4 magicNumberRecvDataFromCanBus.toNat)
  decide

/-! ## Arbitrary corruption -/

/-- Once inside of a packet in which no other magic starts, the receiver skips to
    the next packet. -/
theorem scan_drop_line {F : RxFrame crc16Modbus} {t : List UInt8} {o : ℕ} (ho : 0 < o)
    (ho' : o < sizeofUartCanData) (ht : sizeofUartCanData ≤ t.length)
    (honly : ∀ i, MagicAt (F.bytes ++ t) i → sizeofUartCanData ∣ i) :
    (frameScanner crc16Modbus).scan ((F.bytes ++ t).drop o) =
      (frameScanner crc16Modbus).scan t := by
  have hF := F.length_eq
  rw [List.drop_append_of_le_length (by omega)]
  refine Scanner.scan_skip _ ht fun i hi hit => ?_
  rw [List.length_drop] at hi
  rw [← List.drop_append_of_le_length (by omega), List.drop_drop] at hit
  have := Nat.le_of_dvd (by omega) (honly (o + i) hit)
  omega

/-- Whatever bytes `J` come before valid packets in which the receive magic only
    occurs at their starts, all of them but the first are handed on at the end. -/
theorem bounded_loss (J : List UInt8) (Fs : List (RxFrame crc16Modbus))
    (honly : ∀ i, MagicAt (RxFrame.line Fs) i → sizeofUartCanData ∣ i) :
    ∃ calls rest, Receives crc16Modbus (J ++ RxFrame.line Fs) calls rest ∧
      Fs.tail.map RxFrame.call <:+ calls := by
  refine ⟨_, _, receives_scan _, ?_⟩
  rcases Fs with _ | ⟨F, _ | ⟨G, Hs⟩⟩
  · exact List.nil_suffix
  · exact List.nil_suffix
  · have hline : RxFrame.line (F :: G :: Hs) = F.bytes ++ RxFrame.line (G :: Hs) := rfl
    have hlen : sizeofUartCanData ≤ (RxFrame.line (G :: Hs)).length := by
      rw [show RxFrame.line (G :: Hs) = G.bytes ++ RxFrame.line Hs from rfl, List.length_append,
        G.length_eq]
      exact Nat.le_add_right _ _
    obtain ⟨out, o, ho, hscan⟩ := (frameScanner crc16Modbus).scan_overrun J
      (t := RxFrame.line (F :: G :: Hs)) (by
        rw [hline, List.length_append]; exact hlen.trans (Nat.le_add_left _ _))
    rw [hscan]
    refine List.IsSuffix.trans ?_ (List.suffix_append _ _)
    rcases Nat.eq_zero_or_pos o with rfl | hpos
    · rw [List.drop_zero, RxFrame.scan_line]
      exact List.suffix_cons _ _
    · rw [hline, scan_drop_line hpos ho hlen (hline ▸ honly), RxFrame.scan_line]
      exact List.suffix_rfl

/-- A valid packet of the frame `0x123`, with one data byte. -/
def sampleFrame (b : UInt8) : RxFrame modbusCrc where
  bytes := (rxPacket modbusCrc ⟨0x123, 1, #v[b, 0, 0, 0, 0, 0, 0, 0]⟩).toBytes
  length_eq := UartCanData.length_toBytes _
  valid := isRxPacket_rxPacket _ _

theorem bounded_loss_sample :
    ∃ calls rest, Receives modbusCrc
        ([0xDE, 0xCC, 0xBB, 0xAA, 0x01] ++ RxFrame.line [sampleFrame 1, sampleFrame 2]) calls rest ∧
      [(sampleFrame 2).call] <:+ calls := by
  refine bounded_loss [0xDE, 0xCC, 0xBB, 0xAA, 0x01] [sampleFrame 1, sampleFrame 2] fun i hi => ?_
  have hlt : i < 2 * sizeofUartCanData := by
    by_contra hge
    have hnil : (RxFrame.line [sampleFrame 1, sampleFrame 2]).drop i = [] :=
      List.drop_eq_nil_of_le (not_lt.1 hge)
    rw [MagicAt, hnil, List.prefix_nil] at hi
    exact absurd hi (by decide)
  have hall : ∀ i < 2 * sizeofUartCanData,
      MagicAt (RxFrame.line [sampleFrame 1, sampleFrame 2]) i → sizeofUartCanData ∣ i := by
    unfold MagicAt
    decide +kernel
  exact hall i hlt hi

/-! ## Truncated packets -/

/-- A truncated packet that still has the whole magic number costs none of the
    packets after it only if the 19 bytes it opens are (by chance) the first of
    these packets over again, and the end of that packet costs none of the
    others. -/
def HarmlessOverlap (p : List UInt8) (F : RxFrame crc16Modbus) (Fs : List (RxFrame crc16Modbus)) :
    Prop :=
  (p ++ F.bytes).take sizeofUartCanData = F.bytes ∧
    (frameScanner crc16Modbus).Realigns (F.bytes.drop (sizeofUartCanData - p.length))
      (Fs.map RxFrame.bytes)

/-- A packet truncated to `k` bytes costs none of the packets after it iff it has
    lost part of its magic number, or the overlap is harmless. -/
theorem truncated_frame_iff (F₀ : RxFrame crc16Modbus) {k : ℕ} (hk : k < sizeofUartCanData)
    (F : RxFrame crc16Modbus) (Fs : List (RxFrame crc16Modbus)) :
    ∃ calls rest, Receives crc16Modbus (F₀.bytes.take k ++ RxFrame.line (F :: Fs)) calls rest ∧
      (((F :: Fs).map RxFrame.call).Sublist calls ↔
        k < 4 ∨ HarmlessOverlap (F₀.bytes.take k) F Fs) := by
  have hlen : (F₀.bytes.take k).length = k := List.length_take_of_le (F₀.length_eq ▸ hk.le)
  refine ⟨_, _, receives_scan _, ?_⟩
  rw [RxFrame.line, Scanner.sublist_scan_iff (packet_injective crc16Modbus) (hlen.symm ▸ hk)
    (RxFrame.packets (F :: Fs)), List.map_cons]
  rcases Nat.lt_or_ge k 4 with hlt | hge
  · refine iff_of_true (Scanner.realigns_of_not_infix magic_unbordered (fun hin => ?_) F.packet.hit)
      (.inl hlt)
    have := hin.length_le
    rw [hlen] at this
    exact absurd (this.trans_lt hlt) (lt_irrefl _)
  · rw [Scanner.realigns_iff_of_hit (List.prefix_take_iff.2 ⟨F₀.packet.hit, hge⟩)]
    exact ⟨fun h => .inr h, fun h => h.resolve_left (not_lt.2 hge)⟩

theorem truncated_frame_iff_sample :
    ∃ calls rest, Receives modbusCrc
        ((sampleFrame 1).bytes.take 3 ++ RxFrame.line [sampleFrame 2]) calls rest ∧
      ([(sampleFrame 2).call].Sublist calls ↔
        3 < 4 ∨ HarmlessOverlap ((sampleFrame 1).bytes.take 3) (sampleFrame 2) []) :=
  truncated_frame_iff (sampleFrame 1) (by decide) (sampleFrame 2) []

/-- A packet truncated to its magic number makes the receiver lose the intact
    packet after it. -/
theorem truncated_frame_loss :
    ¬∀ (F₀ : RxFrame modbusCrc) (k : ℕ) (Fs : List (RxFrame modbusCrc)), k < sizeofUartCanData →
      Fs ≠ [] → ∀ calls rest, Receives modbusCrc (F₀.bytes.take k ++ RxFrame.line Fs) calls rest →
        (Fs.map RxFrame.call).Sublist calls := by
  intro h
  have hnone : (frameScanner modbusCrc).scan
      ((sampleFrame 1).bytes.take 4 ++ RxFrame.line [sampleFrame 2]) =
        ([], (sampleFrame 2).bytes.drop 15) := by decide +kernel
  have := h (sampleFrame 1) 4 [sampleFrame 2] (by decide) (List.cons_ne_nil _ _) _ _
    (receives_iff.2 hnone)
  exact absurd this.length_le (by decide)

end QustomKeyboard
