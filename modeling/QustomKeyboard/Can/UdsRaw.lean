import Mathlib
import QustomKeyboard.Theory.Memory
import QustomKeyboard.Theory.Scanf
import QustomKeyboard.Theory.Selection
import QustomKeyboard.Theory.Split

/-!
# Raw UDS scripts

A script is a text of lines (`splitLines`). A line either is a delay, or it stands for the
bytes of an ISO-TP frame, as hexadecimal digits (`handleLine`): these are converted into an
array on the stack (`convertHexStringToBuffer`), and as many bytes of the array are sent
as the line has pairs of characters.

Whether the conversion has succeeded is not looked at. If the line is no hexadecimal text,
or one that is too long, the array keeps what has been on the stack, and this is sent, or
what stands behind the array. The script sends what is written in it iff no line is of this
kind, and none has so many bytes that their number is cut off (`sendsWritten_iff`).

The characters stand for the bytes of the text. The array is uninitialised: its contents are
given for each line. The task that sends a frame is taken to read the array before this
goes out of scope.
-/

namespace QustomKeyboard

open Theory

/-- A line of a script ends here. -/
def isSeparator (c : Char) : Bool := c = '\n' ∨ c = ';'

/-- `boost::split`, where adjacent separators count as one. -/
def splitLines : List Char → List (List Char)
  | [] => [[]]
  | c :: l =>
    if isSeparator c then
      if l.head?.any isSeparator then splitLines l else [] :: splitLines l
    else (splitLines l).modifyHead (c :: ·)

/-- `"DELAY%*c%d%*c[^\n]"`: the last bracket is not that of a scan set, but stands for itself. -/
def delayFormat : List Directive :=
  [.char 'D', .char 'E', .char 'L', .char 'A', .char 'Y', .skipChar, .int, .skipChar,
    .char '[', .char '^', .space, .char ']']

/-- The delay of a line, if `sscanf` stores one. -/
def readDelay (line : List Char) : Option ℤ :=
  match sscanf delayFormat line with
  | [.int delay] => some delay
  | _ => none

/-- The value of a hexadecimal digit. -/
def hexCharToInt (c : Char) : Option ℕ :=
  if '0' ≤ c ∧ c ≤ '9' then some (c.toNat - '0'.toNat)
  else if 'A' ≤ c ∧ c ≤ 'F' then some (c.toNat - 'A'.toNat + 10)
  else if 'a' ≤ c ∧ c ≤ 'f' then some (c.toNat - 'a'.toNat + 10)
  else none

/-- `boost::algorithm::unhex`, which throws at any other character and if a digit is left. -/
def unhex : List Char → Option (List UInt8)
  | [] => some []
  | [_] => none
  | a :: b :: l => do
    let hi ← hexCharToInt a
    let lo ← hexCharToInt b
    let bytes ← unhex l
    return UInt8.ofNat (16 * hi + lo) :: bytes

/-- The line without blanks and dots. -/
def hexStr (line : List Char) : List Char := (line.filter (· ≠ ' ')).filter (· ≠ '.')

variable {max : ℕ}

/-- `utils::ConvertHexStringToBuffer`. -/
def convertHexStringToBuffer (in_ : List Char) (out : Vector UInt8 max) : Vector UInt8 max :=
  -- An exception is logged, and the string stays empty.
  let hash := (unhex in_).getD []
  if hash.length ≤ max then .ofFn fun i => hash.getD i out[i] else out

/-- What is done about a line. -/
inductive Action (max : ℕ)
  | wait (delay : ℤ)
  | skip
  /-- `SendIsoTpFrame`, with an array and a length. -/
  | send (arrToSend : Vector UInt8 max) (len : UInt16)
  deriving DecidableEq

/-- The payload of a frame that is sent, or that it is read beyond the array. -/
def Action.payload : Action max → Option (Except Fault (List UInt8))
  | .send arrToSend len => some (load arrToSend.toList 0 len.toNat)
  | _ => none

/-- An iteration of the loop in `CanUdsRawDialog::HandleFrameSending`. -/
def handleLine (byteArray : Vector UInt8 max) (line : List Char) : Action max :=
  match readDelay line with
  | some delay => .wait delay
  | none =>
    let byteArray := convertHexStringToBuffer (hexStr line) byteArray
    let len := UInt16.ofNat ((hexStr line).length / 2)
    if len = 0 then .skip else .send byteArray len

/-- `CanUdsRawDialog::HandleFrameSending`, from the arrays as the lines find them. -/
def handleFrameSending (stack : ℕ → Vector UInt8 max) (text : List Char) : List (Action max) :=
  (splitLines text).zipIdx.map fun p => handleLine (stack p.2) p.1

/-! ## What is written -/

/-- The bytes of a frame that the line stands for, if these fit in the array. -/
def denoted (max : ℕ) (line : List Char) : Option (List UInt8) :=
  (unhex (hexStr line)).filter fun bytes => bytes ≠ [] ∧ bytes.length ≤ max

/-- The bytes that `convertHexStringToBuffer` stores. -/
def stored (max : ℕ) (in_ : List Char) : List UInt8 :=
  let hash := (unhex in_).getD []
  if hash.length ≤ max then hash else []

/-- The script sends exactly the bytes written in it. -/
structure SendsWritten (stack : ℕ → Vector UInt8 max) (text : List Char) : Prop where
  /-- In line order, these are the payloads. -/
  payloads : (handleFrameSending stack text).filterMap Action.payload =
    ((splitLines text).filterMap (denoted max)).map .ok
  /-- Any other line sends nothing. -/
  nothing : ∀ p ∈ (splitLines text).zipIdx, denoted max p.1 = none →
    (handleLine (stack p.2) p.1).payload = none
  /-- No payload exceeds what has been stored for its line. -/
  within : ∀ p ∈ (splitLines text).zipIdx, ∀ r ∈ (handleLine (stack p.2) p.1).payload,
    ∃ bytes, r = .ok bytes ∧ bytes <+: stored max (hexStr p.1)

/-- The line is hexadecimal and its bytes fit in the array. -/
def Fits (max : ℕ) (line : List Char) : Prop :=
  ∃ bytes ∈ unhex (hexStr line), bytes.length ≤ max

/-- Where the code does what is written: the line is a delay, or the number of its bytes is
    not cut off if it fits, and is cut off to zero if it does not. -/
def LineOk (max : ℕ) (line : List Char) : Prop :=
  (readDelay line).isSome ∨
    Fits max line ∧ (hexStr line).length / 2 < 2 ^ 16 ∨
    ¬Fits max line ∧ (hexStr line).length / 2 % 2 ^ 16 = 0

/-! ## Lines -/

theorem splitLines_eq (text : List Char) : splitLines text = splitCompress isSeparator text := by
  induction text with
  | nil => rfl
  | cons c l ih => rw [splitLines, splitCompress, ih]

/-- The lines are the text without its separators. -/
theorem flatten_splitLines (text : List Char) :
    (splitLines text).flatten = text.filter fun c => !isSeparator c := by
  rw [splitLines_eq, flatten_splitCompress]

/-! ## Conversion -/

theorem length_unhex {s : List Char} {bytes : List UInt8} (h : unhex s = some bytes) :
    s.length = 2 * bytes.length := by
  fun_induction unhex s generalizing bytes with
  | case1 =>
    obtain rfl := Option.some.inj h
    rfl
  | case2 => exact absurd h (by simp)
  | case3 a b l ih =>
    simp only [Option.bind_eq_bind, Option.bind_eq_some_iff] at h
    obtain ⟨hi, -, lo, -, rest, hrest, hbytes⟩ := h
    obtain rfl := Option.some.inj hbytes
    simp only [List.length_cons, ih hrest]
    omega

/-- One character that is no digit is enough for the text to be rejected. -/
theorem unhex_eq_none {s : List Char} {c : Char} (hc : hexCharToInt c = none) (h : c ∈ s) :
    unhex s = none := by
  fun_induction unhex s with
  | case1 => exact absurd h List.not_mem_nil
  | case2 => rfl
  | case3 a b l ih =>
    rcases List.mem_cons.1 h with rfl | h
    · rw [hc]
      rfl
    rcases List.mem_cons.1 h with rfl | h
    · rw [hc]
      cases hexCharToInt a <;> rfl
    · rw [ih h]
      cases hexCharToInt a <;> cases hexCharToInt b <;> rfl

/-- The array begins with what has been stored, and keeps the rest. -/
theorem toList_convertHexStringToBuffer (in_ : List Char) (out : Vector UInt8 max) :
    (convertHexStringToBuffer in_ out).toList =
      stored max in_ ++ out.toList.drop (stored max in_).length := by
  rw [convertHexStringToBuffer, stored]
  split_ifs with h
  · apply List.ext_getElem
    · simp only [Vector.length_toList, List.length_append, List.length_drop]
      omega
    -- Each cell is one of the new bytes, or as it has been.
    intro i hi hi'
    rw [Vector.getElem_toList, Vector.getElem_ofFn]
    by_cases hlt : i < ((unhex in_).getD []).length
    · rw [List.getElem_append_left hlt, List.getD_eq_getElem _ _ hlt]
    · rw [List.getElem_append_right (Nat.le_of_not_lt hlt), List.getElem_drop,
        List.getD_eq_default _ _ (Nat.le_of_not_lt hlt), Vector.getElem_toList]
      simp only [Nat.add_sub_cancel' (Nat.le_of_not_lt hlt)]
      rfl
  · rfl

/-! ## A line -/

/-- A delay is no hexadecimal text. -/
theorem denoted_of_readDelay {line : List Char} (h : (readDelay line).isSome) :
    denoted max line = none := by
  have hscan : sscanf delayFormat line ≠ [] := by
    intro hnil
    rw [readDelay, hnil] at h
    exact absurd h (by simp)
  have hl : 'L' ∈ line := by
    obtain ⟨x, hx, hscan'⟩ := exists_cons_of_scan_char hscan
    obtain ⟨y, rfl, hscan''⟩ := exists_cons_of_scan_char hscan'
    obtain ⟨z, rfl, -⟩ := exists_cons_of_scan_char hscan''
    refine (List.takeWhile_prefix _).subset (?_ : 'L' ∈ cString line)
    rw [hx]
    simp
  have hmem : 'L' ∈ hexStr line :=
    List.mem_filter.2 ⟨List.mem_filter.2 ⟨hl, by decide⟩, by decide⟩
  rw [denoted, unhex_eq_none (by decide) hmem]
  rfl

section

variable {byteArray : Vector UInt8 max} {line : List Char}

theorem payload_of_readDelay (h : (readDelay line).isSome) :
    (handleLine byteArray line).payload = none := by
  obtain ⟨delay, hdelay⟩ := Option.isSome_iff_exists.1 h
  rw [handleLine, hdelay]
  rfl

/-- The length is taken from the text, and cut off. -/
theorem payload_of_not_readDelay (h : ¬(readDelay line).isSome) :
    (handleLine byteArray line).payload =
      if (hexStr line).length / 2 % 2 ^ 16 = 0 then none
      else some (load (convertHexStringToBuffer (hexStr line) byteArray).toList 0
        ((hexStr line).length / 2 % 2 ^ 16)) := by
  have hzero : UInt16.ofNat ((hexStr line).length / 2) = 0 ↔
      (hexStr line).length / 2 % 2 ^ 16 = 0 := by
    rw [← UInt16.toNat_inj, UInt16.toNat_ofNat']
    rfl
  rw [handleLine, Option.not_isSome_iff_eq_none.1 h]
  simp only [hzero]
  split_ifs
  · rfl
  · rw [Action.payload, UInt16.toNat_ofNat']

theorem denoted_of_fits {bytes : List UInt8} (hbytes : unhex (hexStr line) = some bytes)
    (hfits : bytes.length ≤ max) : denoted max line = if bytes = [] then none else some bytes := by
  rw [denoted, hbytes]
  by_cases hnil : bytes = [] <;> simp [hnil, hfits]

theorem stored_of_fits {bytes : List UInt8} (hbytes : unhex (hexStr line) = some bytes)
    (hfits : bytes.length ≤ max) : stored max (hexStr line) = bytes := by
  rw [stored, hbytes]
  exact if_pos hfits

theorem denoted_of_not_fits (h : ¬Fits max line) : denoted max line = none := by
  rw [denoted, Option.filter_eq_none_iff]
  intro bytes hbytes hfits
  exact h ⟨bytes, hbytes, (of_decide_eq_true hfits).2⟩

/-- A line whose bytes fit is sent iff their number is not cut off. -/
theorem payload_eq_iff_of_fits {bytes : List UInt8} (hdelay : ¬(readDelay line).isSome)
    (hbytes : unhex (hexStr line) = some bytes) (hfits : bytes.length ≤ max) :
    (handleLine byteArray line).payload = (denoted max line).map .ok ↔
      bytes.length < 2 ^ 16 := by
  have hlen : (hexStr line).length / 2 = bytes.length := by
    rw [length_unhex hbytes, Nat.mul_div_cancel_left _ Nat.two_pos]
  rw [payload_of_not_readDelay hdelay, hlen, denoted_of_fits hbytes hfits]
  by_cases hlt : bytes.length < 2 ^ 16
  · refine iff_of_true ?_ hlt
    rw [Nat.mod_eq_of_lt hlt]
    by_cases hnil : bytes = []
    · rw [if_pos hnil, hnil]
      rfl
    rw [if_neg hnil, if_neg (mt List.length_eq_zero_iff.1 hnil),
      toList_convertHexStringToBuffer, stored_of_fits hbytes hfits, load_front rfl]
    rfl
  · -- What is sent is too short.
    refine iff_of_false (fun heq => ?_) hlt
    have hlast : bytes.length % 2 ^ 16 < bytes.length :=
      (Nat.mod_lt _ (Nat.two_pow_pos 16)).trans_le (Nat.le_of_not_lt hlt)
    have hnil : bytes ≠ [] := by
      rintro rfl
      exact absurd hlast (Nat.not_lt_zero _)
    rw [if_neg hnil, Option.map_some] at heq
    split at heq
    · exact Option.some_ne_none _ heq.symm
    · exact hlast.ne' (length_of_load (Option.some.inj heq))

/-- A line that does not fit is not sent iff the number of its bytes is cut off to zero. -/
theorem payload_eq_iff_of_not_fits (hdelay : ¬(readDelay line).isSome) (hfits : ¬Fits max line) :
    (handleLine byteArray line).payload = (denoted max line).map .ok ↔
      (hexStr line).length / 2 % 2 ^ 16 = 0 := by
  rw [payload_of_not_readDelay hdelay, denoted_of_not_fits hfits, Option.map_none]
  by_cases hzero : (hexStr line).length / 2 % 2 ^ 16 = 0
  · exact iff_of_true (if_pos hzero) hzero
  · rw [if_neg hzero]
    exact iff_of_false (Option.some_ne_none _) hzero

/-- What a line sends is what it stands for iff the condition is met. -/
theorem payload_eq_iff :
    (handleLine byteArray line).payload = (denoted max line).map .ok ↔ LineOk max line := by
  by_cases hdelay : (readDelay line).isSome
  · rw [payload_of_readDelay hdelay, denoted_of_readDelay hdelay]
    exact iff_of_true rfl (.inl hdelay)
  by_cases hfits : Fits max line
  · have hok : LineOk max line ↔ (hexStr line).length / 2 < 2 ^ 16 := by
      simp [LineOk, hdelay, hfits]
    obtain ⟨bytes, hbytes, hle⟩ := hfits
    rw [hok, payload_eq_iff_of_fits hdelay hbytes hle, length_unhex hbytes,
      Nat.mul_div_cancel_left _ Nat.two_pos]
  · have hok : LineOk max line ↔ (hexStr line).length / 2 % 2 ^ 16 = 0 := by
      simp [LineOk, hdelay, hfits]
    rw [hok, payload_eq_iff_of_not_fits hdelay hfits]

/-- What a line stands for is what is stored for it. -/
theorem stored_of_denoted {bytes : List UInt8} (h : denoted max line = some bytes) :
    stored max (hexStr line) = bytes := by
  obtain ⟨hbytes, hfits⟩ := Option.filter_eq_some_iff.1 h
  exact stored_of_fits hbytes (of_decide_eq_true hfits).2

end

/-! ## Scripts -/

/-- The payloads are those of the script iff this holds line by line. -/
theorem sendsWritten_iff_lines (stack : ℕ → Vector UInt8 max) (text : List Char) :
    SendsWritten stack text ↔ ∀ p ∈ (splitLines text).zipIdx,
      (handleLine (stack p.2) p.1).payload = (denoted max p.1).map .ok := by
  have hsent : (handleFrameSending stack text).filterMap Action.payload =
      (splitLines text).zipIdx.filterMap fun p => (handleLine (stack p.2) p.1).payload :=
    List.filterMap_map
  have hdenoted : ((splitLines text).filterMap (denoted max)).map .ok =
      (splitLines text).zipIdx.filterMap fun p =>
        (denoted max p.1).map (.ok : _ → Except Fault _) := by
    conv_lhs => rw [← List.zipIdx_map_fst 0 (splitLines text)]
    rw [List.filterMap_map, List.map_filterMap]
    rfl
  constructor
  · -- Lines that stand for nothing send nothing, so no payload can stand in for another.
    rintro ⟨hpayloads, hnothing, -⟩
    rw [hsent, hdenoted] at hpayloads
    exact eq_of_filterMap_eq (fun p hp h => hnothing p hp (Option.map_eq_none_iff.1 h)) hpayloads
  · intro h
    refine ⟨?_, fun p hp hnone => by rw [h p hp, hnone, Option.map_none], fun p hp r hr => ?_⟩
    · rw [hsent, hdenoted]
      exact List.filterMap_congr h
    · rw [h p hp] at hr
      obtain ⟨bytes, hbytes, rfl⟩ := Option.map_eq_some_iff.1 hr
      exact ⟨bytes, rfl, (stored_of_denoted hbytes).symm ▸ List.prefix_rfl⟩

/-- Whatever has been on the stack, the script sends exactly what is written in it iff each
    of its lines meets the condition. -/
theorem sendsWritten_iff (stack : ℕ → Vector UInt8 max) (text : List Char) :
    SendsWritten stack text ↔ ∀ line ∈ splitLines text, LineOk max line := by
  rw [sendsWritten_iff_lines]
  simp only [payload_eq_iff]
  conv_rhs => rw [← List.zipIdx_map_fst 0 (splitLines text)]
  rw [List.forall_mem_map]

/-- Three lines: a frame, a delay, and a frame with dots. -/
example : (handleFrameSending (fun _ => Vector.replicate 4 0)
      ['2', '2', ' ', 'F', '1', ';', 'D', 'E', 'L', 'A', 'Y', ' ', '5', '\n',
        '3', 'e', '.', '0', '0']).map Action.payload =
    [some (.ok [0x22, 0xF1]), none, some (.ok [0x3E, 0x00])] := by
  decide

/-- A line with a digit left over sends a byte of the stack. -/
theorem sends_stack :
    ¬SendsWritten (fun _ => Vector.replicate 8 0x55) ['1', '2', '3'] := by
  rw [sendsWritten_iff_lines]
  decide

end QustomKeyboard
