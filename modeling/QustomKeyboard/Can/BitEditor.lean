import QustomKeyboard.Can.BitfieldValue
import QustomKeyboard.Text.Stoi

/-!
# The bit editor

A frame has fields at some of its bits. They are shown as texts (`getMapForFrameId`), and
texts are written into them (`applyEditingOnFrameId`), over a buffer of eight bytes, which
becomes the data of the frame.

* A text that is no `int`, or the number of which does not fit, is passed over. Otherwise it is
  written into its own field, and the rest of the frame is kept (`applyEditing_writes`).
* The texts are counted by the fields of integral types, and so there must be as many of them
  (`applyEditing_ok_iff`).
* Writing what is shown may change the frame: iff a field accepts the text at its place, and that
  is of another number than the field has (`applyEditing_shown_iff`). A floating point number is
  shown, but has no place among the texts that are written.

The texts of floating point numbers are not known. The byte order of the machine, and what stands
in memory behind the union of `set_bitfield`, are any.
-/

namespace QustomKeyboard

open Theory

/-! ## Numbers and texts -/

/-- `std::to_string`, of an integer. -/
def intToString (n : ℤ) : List Char :=
  if n < 0 then '-' :: Nat.toDigits 10 n.natAbs else Nat.toDigits 10 n.natAbs

/-- `std::stoi`, or nothing if it throws. -/
def stdStoi (s : List Char) : Option ℤ :=
  ((readInt (cString s)).map Prod.fst).filter fun n => int.Represents n

/-! ## The frames -/

inductive CanBitfieldType
  | bool | ui8 | i8 | ui16 | i16 | ui32 | i32 | ui64 | i64 | float | double | invalid
  deriving DecidableEq

/-- The type that the values of an integral type are cast to. -/
def CanBitfieldType.integral : CanBitfieldType → Option IntegralType
  | .bool | .ui8 => some ⟨8, false, eight_pos⟩
  | .i8 => some ⟨8, true, eight_pos⟩
  | .ui16 => some ⟨16, false, sixteen_pos⟩
  | .i16 => some ⟨16, true, sixteen_pos⟩
  | .ui32 => some ⟨32, false, thirtyTwo_pos⟩
  | .i32 => some ⟨32, true, thirtyTwo_pos⟩
  | .ui64 => some ⟨64, false, sixtyFour_pos⟩
  | .i64 => some ⟨64, true, sixtyFour_pos⟩
  | .float | .double | .invalid => none

/-- A field of a frame. -/
structure CanMap where
  name : List Char
  type : CanBitfieldType
  size : UInt8
  minVal : ℤ
  maxVal : ℤ

/-- The fields of a frame in the order of their offsets. -/
structure CanFields where
  entries : List (UInt8 × CanMap)
  sorted : entries.Pairwise fun a b => a.1 < b.1

structure CanTxEntry where
  id : UInt32
  data : List UInt8
  deriving DecidableEq

structure CanEntryHandler where
  /-- The frames that are sent. -/
  entries : List CanTxEntry
  /-- The data of the frames that have been received. -/
  rxData : UInt32 → Option (List UInt8)
  mapping : UInt32 → Option CanFields

/-- A field as it is shown: its label and its value. -/
structure CanBitfield where
  label : List Char
  value : List Char
  map : CanMap

namespace CanEntryHandler

/-- `FindTxCanEntryByFrame` -/
def findTxCanEntryByFrame (h : CanEntryHandler) (frameId : UInt32) : Option CanTxEntry :=
  h.entries.find? (·.id = frameId)

/-- The first entry of the frame gets the data. -/
def assignData (frameId : UInt32) (buffer : List UInt8) : List CanTxEntry → List CanTxEntry
  | [] => []
  | e :: es =>
    if e.id = frameId then { e with data := buffer } :: es else e :: assignData frameId buffer es

/-- `AssignNewBufferToTxEntry` -/
def assignNewBufferToTxEntry (h : CanEntryHandler) (frameId : UInt32) (buffer : List UInt8) :
    CanEntryHandler :=
  { h with entries := assignData frameId buffer h.entries }

/-- The label of a field. -/
def fieldLabel (m : CanMap) (offset : UInt8) : List Char :=
  m.name ++ "         (offset: ".toList ++ intToString offset.toNat ++ ", size: ".toList ++
    intToString m.size.toNat ++ ", range: ".toList ++ intToString m.minVal ++ " - ".toList ++
    intToString m.maxVal ++ ")".toList

variable (isLittleEndian : Bool) (behind : UInt8)

/-- `HandleBitReading<T>`, `toText` being the cast to `T` and `std::to_string`. A frame that has
    not been received has no data to point to. -/
def handleBitReading (toText : UInt64 → List Char) (h : CanEntryHandler) (frameId : UInt32)
    (isRx : Bool) (m : CanMap) (offset : UInt8) (info : List CanBitfield) :
    Except Fault (List CanBitfield) := do
  let data ← (if isRx then (h.rxData frameId).elim (.error .load) (fun d => .ok (some d))
    else .ok ((h.findTxCanEntryByFrame frameId).map CanTxEntry.data))
  match data with
  | none => return info
  | some data =>
    let value ← getBitfield isLittleEndian data (.ofNat data.length) offset.toUInt16
      m.size.toUInt16
    return info ++ [⟨fieldLabel m offset, toText value, m⟩]

/-- The texts of the values of a type. -/
def toText (floatToText doubleToText : UInt64 → List Char) :
    CanBitfieldType → Option (UInt64 → List Char)
  | .float => some floatToText
  | .double => some doubleToText
  | t => t.integral.map fun R v => intToString (R.convert v.toNat)

/-- `GetMapForFrameId` -/
def getMapForFrameId (floatToText doubleToText : UInt64 → List Char) (h : CanEntryHandler)
    (frameId : UInt32) (isRx : Bool) : Except Fault (List CanBitfield) :=
  match h.mapping frameId with
  | none => .ok []
  | some fields => fields.entries.foldlM (fun info f =>
      (toText floatToText doubleToText f.2.type).elim (.ok info) fun text =>
        handleBitReading isLittleEndian text h frameId isRx f.2 f.1 info) []

/-- `HandleBitWriting<T>`: the position and the bytes. The length that is given to `set_bitfield`
    is `sizeof(byte_array)`, the size of a pointer, which is eight in a program of 64 bits only. -/
def handleBitWriting (T : IntegralType) (pos offset size : UInt8) (byteArray : List UInt8)
    (newData : List (List Char)) : Except Fault (UInt8 × List UInt8) := do
  let text ← loadAt newData pos.toNat
  let byteArray ← (stdStoi text).elim (.ok byteArray) fun n => do
    return (← setBitfield isLittleEndian [behind] (.ofInt (T.convert n)) offset.toUInt16
      size.toUInt16 byteArray 8).2
  return (pos + 1, byteArray)

/-- The loop of `ApplyEditingOnFrameId` over the fields. -/
def editFields (fields : List (UInt8 × CanMap)) (newData : List (List Char)) (cnt : UInt8)
    (byteArray : List UInt8) : Except Fault (UInt8 × List UInt8) :=
  fields.foldlM (fun s f => f.2.type.integral.elim (.ok s) fun T =>
    handleBitWriting isLittleEndian behind T s.1 f.1 f.2.size s.2 newData) (cnt, byteArray)

/-- `ApplyEditingOnFrameId` -/
def applyEditingOnFrameId (h : CanEntryHandler) (frameId : UInt32) (newData : List (List Char)) :
    Except Fault CanEntryHandler := do
  let byteArray ← (h.findTxCanEntryByFrame frameId).elim (.ok (List.replicate 8 0)) fun e =>
    memcpy (List.replicate 8 0) 0 e.data 0 e.data.length
  match h.mapping frameId with
  | none => return h
  | some fields =>
    let (_, byteArray) ← editFields isLittleEndian behind fields.entries newData 0 byteArray
    return h.assignNewBufferToTxEntry frameId byteArray

end CanEntryHandler

/-! ## Numbers and texts -/

theorem zeroFilled_zero (m : ℕ) : zeroFilled 0 m = Nat.toDigits 10 m := by
  rw [zeroFilled, Nat.zero_sub]
  rfl

theorem readInt_intToString (n : ℤ) : readInt (intToString n) = some (n, []) := by
  have hend : ∀ c ∈ ([] : List Char).head?, c.isDigit = false := fun _ h => by cases h
  have hdigits := readDigits_append (w := 0) (n := n.natAbs) hend
  have hint := readInt_append (w := 0) (n := n.natAbs) hend
  rw [List.append_nil, zeroFilled_zero] at hdigits hint
  rw [intToString]
  split_ifs with hneg
  · rw [readInt, List.dropWhile_cons_of_neg (by decide)]
    change (readDigits (Nat.toDigits 10 n.natAbs)).map _ = _
    rw [hdigits, Option.map_some]
    congr 2
    omega
  · rw [hint]
    congr 2
    omega

theorem notMem_intToString (n : ℤ) : '\x00' ∉ intToString n := by
  have hdigits : '\x00' ∉ Nat.toDigits 10 n.natAbs := fun h =>
    absurd (Nat.isDigit_of_mem_toDigits (by decide) (by decide) h) (by decide)
  rw [intToString]
  split_ifs
  · exact List.not_mem_cons_of_ne_of_not_mem (by decide) hdigits
  · exact hdigits

/-- An integer that is shown is read, if it is an `int`. -/
theorem stdStoi_intToString (n : ℤ) :
    stdStoi (intToString n) = if int.Represents n then some n else none := by
  rw [stdStoi, cString_of_notMem (notMem_intToString n), readInt_intToString, Option.map_some,
    Option.filter_some]
  by_cases h : int.Represents n
  · rw [decide_eq_true h, if_pos h]
    rfl
  · rw [decide_eq_false h, if_neg h]
    rfl

/-! ## A field -/

/-- A field of an integral type. -/
structure EditField where
  offset : UInt8
  size : UInt8
  type : IntegralType

/-- The fields of integral types, which are edited. -/
def editFieldsOf (fields : List (UInt8 × CanMap)) : List EditField :=
  fields.filterMap fun f => f.2.type.integral.map fun T => ⟨f.1, f.2.size, T⟩

theorem editFieldsOf_cons_none {f : UInt8 × CanMap} (h : f.2.type.integral = none)
    (fs : List (UInt8 × CanMap)) : editFieldsOf (f :: fs) = editFieldsOf fs :=
  List.filterMap_cons_none (by rw [h]; rfl)

theorem editFieldsOf_cons_some {f : UInt8 × CanMap} {T : IntegralType}
    (h : f.2.type.integral = some T) (fs : List (UInt8 × CanMap)) :
    editFieldsOf (f :: fs) = ⟨f.1, f.2.size, T⟩ :: editFieldsOf fs :=
  List.filterMap_cons_some (by rw [h]; rfl)

namespace EditField

variable (f : EditField)

/-- The bit after the last one. -/
def stop : ℕ := f.offset.toNat + f.size.toNat

/-- The number that is written for a text. -/
def accepts (text : List Char) : Option UInt64 :=
  ((stdStoi text).map fun n => UInt64.ofInt (f.type.convert n)).filter fun v =>
    ValueFits v f.offset.toUInt16 f.size.toUInt16 8

/-- The field is a part of the data. -/
def Within (data : List UInt8) : Prop :=
  0 < f.size.toNat ∧ f.size.toNat ≤ 64 ∧ f.stop ≤ 8 * data.length

instance (data : List UInt8) : Decidable (f.Within data) := inferInstanceAs (Decidable (_ ∧ _))

/-- The number of the field in the data. -/
def value (data : List UInt8) : ℕ := fieldAt data f.offset.toNat f.size.toNat

/-- The number that is shown. -/
def shown (data : List UInt8) : ℤ :=
  f.type.convert ((if f.Within data then f.value data else 0 : ℕ) : ℤ)

/-- The field is as it was, after what is shown has been written: it is shown as it is, or else
    what is shown is no `int`, or has a sign, where the field is shorter than a number with one. A
    field that is not a part of the data is shown as zero. -/
def Kept (data : List UInt8) : Prop :=
  (f.Within data → (f.shown data % 2 ^ 64).toNat = f.value data ∨ ¬int.Represents (f.shown data) ∨
    (f.shown data < 0 ∧ f.size.toNat < 64)) ∧
  (¬f.Within data → f.value data = 0 ∨ f.size.toNat = 0 ∨ 64 < f.stop)

instance (data : List UInt8) : Decidable (f.Kept data) := inferInstanceAs (Decidable (_ ∧ _))

/-- The text is not accepted, or it is of the number that the field has. -/
def KeptBy (text : List Char) (data : List UInt8) : Prop :=
  ∀ w, f.accepts text = some w → w.toNat = f.value data

/-- What `HandleBitWriting` does to the bytes. -/
def Edited (text : List Char) (bs bs' : List UInt8) : Prop :=
  (f.accepts text).elim (bs' = bs) fun v => FieldSet v f.offset.toNat f.size.toNat bs bs'

variable {f} {text : List Char} {bs bs' : List UInt8}

theorem Edited.length_eq (h : f.Edited text bs bs') : bs'.length = bs.length := by
  rw [Edited] at h
  cases hv : f.accepts text with
  | none =>
    rw [hv] at h
    rw [show bs' = bs from h]
  | some v =>
    rw [hv] at h
    exact FieldSet.length_eq h

/-- The bits of the other fields are kept. -/
theorem Edited.kept (h : f.Edited text bs bs') {i : ℕ} (hi : i < f.offset.toNat ∨ f.stop ≤ i) :
    bitAt bs' i = bitAt bs i := by
  rw [Edited] at h
  cases hv : f.accepts text with
  | none =>
    rw [hv] at h
    rw [show bs' = bs from h]
  | some v =>
    rw [hv] at h
    exact FieldSet.kept h i hi

/-- The field has the number that is accepted, or the one that it had. -/
theorem Edited.value_eq (h : f.Edited text bs bs') :
    f.value bs' = (f.accepts text).elim (f.value bs) UInt64.toNat := by
  rw [Edited] at h
  cases hv : f.accepts text with
  | none =>
    rw [hv] at h
    rw [show bs' = bs from h]
    rfl
  | some v =>
    rw [hv] at h
    exact FieldSet.fieldAt_eq h

theorem accepts_intToString (t : ℤ) (ht : f.type.Represents t) :
    f.accepts (intToString t) = if int.Represents t ∧
      ValueFits (.ofInt t) f.offset.toUInt16 f.size.toUInt16 8 then some (.ofInt t) else none := by
  rw [accepts, stdStoi_intToString]
  by_cases hint : int.Represents t
  · rw [if_pos hint, Option.map_some, IntegralType.convert_of_represents ht, Option.filter_some]
    by_cases hfit : ValueFits (.ofInt t) f.offset.toUInt16 f.size.toUInt16 8
    · rw [if_pos (decide_eq_true hfit), if_pos ⟨hint, hfit⟩]
    · rw [if_neg fun h => hfit (of_decide_eq_true h), if_neg fun h => hfit h.2]
  · rw [if_neg hint, if_neg fun h => hint h.1]
    rfl

theorem toNat_ofInt (t : ℤ) : (UInt64.ofInt t).toNat = (t % 2 ^ 64).toNat := by
  rw [UInt64.ofInt, UInt64.toNat_ofNat']
  omega

theorem valueFits_ofInt_iff (t : ℤ) :
    ValueFits (.ofInt t) f.offset.toUInt16 f.size.toUInt16 8 ↔
      0 < f.size.toNat ∧ f.stop ≤ 64 ∧ (t % 2 ^ 64).toNat < 2 ^ f.size.toNat := by
  rw [ValueFits, toNat_ofInt, UInt8.toNat_toUInt16, UInt8.toNat_toUInt16]
  change _ ∧ _ ∧ f.stop ≤ 64 ∧ _ ↔ _
  rw [stop]
  constructor
  · rintro ⟨h₀, -, h₁, h₂⟩
    exact ⟨h₀, h₁, h₂⟩
  · rintro ⟨h₀, h₁, h₂⟩
    exact ⟨h₀, by omega, h₁, h₂⟩

/-- What is shown of a field that is a part of the data. -/
theorem shown_of_within {data : List UInt8} (h : f.Within data) :
    f.shown data = f.type.convert (f.value data) := by
  rw [shown, if_pos h]

theorem shown_of_not_within {data : List UInt8} (h : ¬f.Within data) : f.shown data = 0 := by
  rw [shown, if_neg h, IntegralType.convert]
  split_ifs <;> simp

theorem represents_shown (data : List UInt8) : f.type.Represents (f.shown data) :=
  f.type.represents_convert _

/-- Where what is shown is accepted, the field has got this number. -/
theorem shown_accepted_iff {data : List UInt8} :
    (∀ w, f.accepts (intToString (f.shown data)) = some w → w.toNat = f.value data) ↔
      (int.Represents (f.shown data) → 0 < f.size.toNat → f.stop ≤ 64 →
        (f.shown data % 2 ^ 64).toNat < 2 ^ f.size.toNat →
        (f.shown data % 2 ^ 64).toNat = f.value data) := by
  rw [accepts_intToString _ (f.represents_shown data), ← toNat_ofInt]
  constructor
  · intro h h₀ h₁ h₂ h₃
    rw [toNat_ofInt] at h₃
    exact h _ (if_pos ⟨h₀, (valueFits_ofInt_iff _).2 ⟨h₁, h₂, h₃⟩⟩)
  · intro h w hw
    split_ifs at hw with hall
    obtain ⟨h₁, h₂, h₃⟩ := (valueFits_ofInt_iff _).1 hall.2
    rw [← Option.some.inj hw]
    rw [← toNat_ofInt] at h₃
    exact h hall.1 h₁ h₂ h₃

/-- A field is kept iff it has the number that is shown, wherever this is accepted. -/
theorem kept_iff {data : List UInt8} (hlen : data.length ≤ 8) :
    f.Kept data ↔ f.KeptBy (intToString (f.shown data)) data := by
  rw [KeptBy, shown_accepted_iff, Kept]
  by_cases hwithin : f.Within data
  · have hshown := f.type.convert_le (f.value data)
    have hvalue : f.value data < 2 ^ f.size.toNat := fieldAt_lt _ _ _
    rw [← shown_of_within hwithin] at hshown
    obtain ⟨hpos, hle, hstop⟩ := id hwithin
    generalize f.shown data = t at hshown ⊢
    generalize f.value data = v at hshown hvalue ⊢
    have hpow : 2 ^ f.size.toNat ≤ 2 ^ 64 := Nat.pow_le_pow_right (by decide) hle
    constructor
    · rintro ⟨h, -⟩ hint - - hlt
      rcases h hwithin with heq | hnot | ⟨hneg, hsize⟩
      · exact heq
      · exact absurd hint hnot
      · -- A negative number has more digits than the field.
        have hmin : -2 ^ 31 ≤ t := hint.1
        have hpow' : 2 ^ f.size.toNat ≤ 2 ^ 63 := Nat.pow_le_pow_right (by decide) (by omega)
        omega
    · refine fun h => ⟨fun _ => ?_, fun hn => absurd hwithin hn⟩
      rw [or_iff_not_imp_right, not_or, not_not]
      rintro ⟨hint, hsign⟩
      refine h hint hpos (by omega) ?_
      rcases lt_or_ge t 0 with hneg | hnonneg
      · rw [show f.size.toNat = 64 by omega]
        omega
      · omega
  · rw [shown_of_not_within hwithin]
    have hint : int.Represents 0 := by decide
    have hpow : 0 < 2 ^ f.size.toNat := Nat.two_pow_pos _
    constructor
    · rintro ⟨-, h⟩ - hpos hstop -
      rcases h hwithin with hzero | hsize | hlt
      · exact hzero.symm
      · omega
      · omega
    · refine fun h => ⟨fun hw => absurd hw hwithin, fun _ => ?_⟩
      rcases Nat.eq_zero_or_pos f.size.toNat with hsize | hpos
      · exact Or.inr (Or.inl hsize)
      · rcases Nat.lt_or_ge 64 f.stop with hlt | hle
        · exact Or.inr (Or.inr hlt)
        · exact Or.inl (h hint hpos hle hpow).symm

end EditField

/-! ## The fields of a frame -/

/-- What the loop does to the bytes, with a text for each of the fields. -/
inductive EditedAll : List EditField → List (List Char) → List UInt8 → List UInt8 → Prop
  | nil {texts : List (List Char)} {bs : List UInt8} : EditedAll [] texts bs bs
  | cons {f : EditField} {fs : List EditField} {text : List Char} {texts : List (List Char)}
    {bs bs' bs'' : List UInt8} (first : f.Edited text bs bs') (rest : EditedAll fs texts bs' bs'') :
    EditedAll (f :: fs) (text :: texts) bs bs''

/-- No bit is in two fields. -/
def FieldsDisjoint (fs : List EditField) : Prop :=
  fs.Pairwise fun f g => f.stop ≤ g.offset.toNat ∨ g.stop ≤ f.offset.toNat

instance (fs : List EditField) : Decidable (FieldsDisjoint fs) :=
  inferInstanceAs (Decidable (List.Pairwise _ _))

namespace EditedAll

variable {fs : List EditField} {texts : List (List Char)} {bs bs' : List UInt8}

theorem length_eq (h : EditedAll fs texts bs bs') : bs'.length = bs.length := by
  induction h with
  | nil => rfl
  | cons first _ ih => rw [ih, first.length_eq]

/-- The bits outside of the fields are kept. -/
theorem kept (h : EditedAll fs texts bs bs') {i : ℕ}
    (hi : ∀ f ∈ fs, i < f.offset.toNat ∨ f.stop ≤ i) : bitAt bs' i = bitAt bs i := by
  induction h with
  | nil => rfl
  | cons first _ ih =>
    rw [List.forall_mem_cons] at hi
    rw [ih hi.2, first.kept hi.1]

/-- A field beside the others is kept. -/
theorem value_of_disjoint (h : EditedAll fs texts bs bs') {g : EditField}
    (hg : ∀ f ∈ fs, g.stop ≤ f.offset.toNat ∨ f.stop ≤ g.offset.toNat) :
    g.value bs' = g.value bs :=
  fieldAt_congr fun k hk => h.kept fun f hf => by
    have := hg f hf
    rw [EditField.stop] at this ⊢
    rw [EditField.stop] at this
    omega

/-- Every field has the number that is accepted, or the one that it had. -/
theorem value_eq (h : EditedAll fs texts bs bs') (hdisjoint : FieldsDisjoint fs) :
    ∀ p ∈ fs.zip texts, p.1.value bs' = (p.1.accepts p.2).elim (p.1.value bs) UInt64.toNat := by
  induction h with
  | nil => exact fun p hp => absurd hp List.not_mem_nil
  | cons first rest ih =>
    rw [FieldsDisjoint, List.pairwise_cons] at hdisjoint
    obtain ⟨hfirst, hrest⟩ := hdisjoint
    intro p hp
    rw [List.zip_cons_cons, List.mem_cons] at hp
    rcases hp with rfl | hp
    · rw [rest.value_of_disjoint hfirst, first.value_eq]
    · have hbeside : p.1.value _ = p.1.value _ := fieldAt_congr fun k hk => first.kept (by
        have := hfirst p.1 (List.of_mem_zip hp).1
        rw [EditField.stop] at this
        rw [EditField.stop] at this ⊢
        omega)
      rw [ih hrest p hp, hbeside]

end EditedAll

/-! ## Writing -/

namespace CanEntryHandler

variable {isLittleEndian : Bool} {behind : UInt8}

variable (isLittleEndian behind) in
/-- A text is written into its field. -/
theorem exists_handleBitWriting {f : EditField} {pos : UInt8} {newData : List (List Char)}
    {text : List Char} {bs : List UInt8} (htext : newData[pos.toNat]? = some text)
    (hlen : bs.length = 8) :
    ∃ bs', handleBitWriting isLittleEndian behind f.type pos f.offset f.size bs newData =
        .ok (pos + 1, bs') ∧ f.Edited text bs bs' := by
  have hwrite : ∃ bs', ((stdStoi text).elim (.ok bs) fun n => do
      return (← setBitfield isLittleEndian [behind] (.ofInt (f.type.convert n)) f.offset.toUInt16
        f.size.toUInt16 bs 8).2) = (.ok bs' : Except Fault (List UInt8)) ∧
      f.Edited text bs bs' := by
    simp only [EditField.Edited, EditField.accepts]
    cases hstoi : stdStoi text with
    | none => exact ⟨bs, rfl, rfl⟩
    | some n =>
      simp only [Option.elim_some, Option.map_some]
      have hd : (8 : UInt16).toNat ≤ bs.length := hlen.ge
      by_cases hfit : ValueFits (.ofInt (f.type.convert n)) f.offset.toUInt16 f.size.toUInt16 8
      · obtain ⟨bs', hset, hfield⟩ := exists_setBitfield isLittleEndian [behind] hfit
          hd (Or.inr (List.cons_ne_nil _ _))
        refine ⟨bs', by rw [hset]; rfl, ?_⟩
        rw [Option.filter_some, decide_eq_true hfit]
        exact hfield
      · refine ⟨bs, by rw [setBitfield_of_not_fits hfit]; rfl, ?_⟩
        rw [Option.filter_some, decide_eq_false hfit]
        rfl
  obtain ⟨bs', hbs', hedited⟩ := hwrite
  refine ⟨bs', ?_, hedited⟩
  rw [handleBitWriting, loadAt_of_getElem? htext]
  change Except.bind (Option.elim _ _ _) _ = _
  rw [hbs']
  rfl

/-- Without a text, there is nothing to read. -/
theorem handleBitWriting_of_le {T : IntegralType} {pos offset size : UInt8} {bs : List UInt8}
    {newData : List (List Char)} (h : newData.length ≤ pos.toNat) :
    handleBitWriting isLittleEndian behind T pos offset size bs newData = .error .load := by
  rw [handleBitWriting, loadAt_of_le h]
  rfl

variable (isLittleEndian behind) in
/-- The fields of integral types are written, with the texts from the position on. -/
theorem exists_editFields {fields : List (UInt8 × CanMap)} {newData : List (List Char)}
    {cnt : UInt8} {bs : List UInt8} (hlen : bs.length = 8)
    (hcnt : cnt.toNat + (editFieldsOf fields).length ≤ 256)
    (hdata : cnt.toNat + (editFieldsOf fields).length ≤ newData.length) :
    ∃ cnt' bs', editFields isLittleEndian behind fields newData cnt bs = .ok (cnt', bs') ∧
      EditedAll (editFieldsOf fields) (newData.drop cnt.toNat) bs bs' := by
  induction fields generalizing cnt bs with
  | nil => exact ⟨cnt, bs, rfl, .nil⟩
  | cons f fields ih =>
    cases hT : f.2.type.integral with
    | none =>
      rw [editFieldsOf_cons_none hT] at hcnt hdata
      obtain ⟨cnt', bs', hedit, hall⟩ := ih hlen hcnt hdata
      refine ⟨cnt', bs', ?_, ?_⟩
      · rw [editFields, List.foldlM_cons, hT]
        exact hedit
      · rwa [editFieldsOf_cons_none hT]
    | some T =>
      rw [editFieldsOf_cons_some hT, List.length_cons] at hcnt hdata
      have hpos : cnt.toNat < newData.length := by omega
      obtain ⟨bs₁, hwrite, hfirst⟩ := exists_handleBitWriting isLittleEndian behind
        (f := ⟨f.1, f.2.size, T⟩) (List.getElem?_eq_getElem hpos) hlen
      have hsucc : (cnt + 1).toNat = (cnt.toNat + 1) % 256 := UInt8.toNat_add cnt 1
      obtain ⟨cnt', bs', hedit, hall⟩ := ih (hfirst.length_eq.trans hlen)
        (show (cnt + 1).toNat + (editFieldsOf fields).length ≤ 256 by omega) (by omega)
      refine ⟨cnt', bs', ?_, ?_⟩
      · rw [editFields, List.foldlM_cons, hT]
        change Except.bind (Option.elim _ _ _) _ = _
        rw [Option.elim_some, hwrite]
        exact hedit
      · rw [editFieldsOf_cons_some hT, List.drop_eq_getElem_cons hpos]
        refine .cons hfirst ?_
        -- The counter wraps around behind the last field only.
        rcases Nat.eq_zero_or_pos (editFieldsOf fields).length with hnil | hne
        · rw [List.eq_nil_of_length_eq_zero hnil] at hall ⊢
          cases hall
          exact .nil
        · rwa [hsucc, Nat.mod_eq_of_lt (by omega)] at hall

/-- Every field of an integral type takes a text. -/
theorem le_of_editFields {fields : List (UInt8 × CanMap)} {newData : List (List Char)}
    {cnt : UInt8} {bs : List UInt8} {r : UInt8 × List UInt8}
    (hr : editFields isLittleEndian behind fields newData cnt bs = .ok r)
    (hcnt : cnt.toNat + (editFieldsOf fields).length ≤ 256) (hne : editFieldsOf fields ≠ []) :
    cnt.toNat + (editFieldsOf fields).length ≤ newData.length := by
  induction fields generalizing cnt bs with
  | nil => exact absurd rfl hne
  | cons f fields ih =>
    rw [editFields, List.foldlM_cons] at hr
    cases hT : f.2.type.integral with
    | none =>
      rw [editFieldsOf_cons_none hT] at hcnt hne ⊢
      rw [hT] at hr
      exact ih hr hcnt hne
    | some T =>
      rw [editFieldsOf_cons_some hT, List.length_cons] at hcnt ⊢
      rw [hT, Option.elim_some] at hr
      obtain ⟨⟨cnt₁, bs₁⟩, hwrite, hrest⟩ := exists_of_bind hr
      have hpos : cnt.toNat < newData.length := by
        by_contra hle
        rw [handleBitWriting_of_le (Nat.not_lt.1 hle)] at hwrite
        cases hwrite
      obtain ⟨_, -, hwrite⟩ := exists_of_bind hwrite
      obtain ⟨_, -, hwrite⟩ := exists_of_bind hwrite
      obtain ⟨rfl, -⟩ := Prod.mk.inj (Except.ok.inj hwrite)
      change editFields isLittleEndian behind fields newData (cnt + 1) bs₁ = _ at hrest
      have hsucc : (cnt + 1).toNat = (cnt.toNat + 1) % 256 := UInt8.toNat_add cnt 1
      rcases Nat.eq_zero_or_pos (editFieldsOf fields).length with hnil | hpos'
      · omega
      · have := ih hrest (by omega) (List.length_pos_iff.1 hpos')
        omega

theorem length_editFieldsOf_le (fields : CanFields) :
    (editFieldsOf fields.entries).length ≤ 256 := by
  have hnodup : (fields.entries.map fun f => f.1.toNat).Nodup := by
    rw [List.nodup_iff_pairwise_ne, List.pairwise_map]
    exact fields.sorted.imp fun h => (UInt8.lt_iff_toNat_lt.1 h).ne
  have hsub : (fields.entries.map fun f => f.1.toNat) ⊆ List.range 256 := fun x hx => by
    obtain ⟨f, -, rfl⟩ := List.mem_map.1 hx
    exact List.mem_range.2 f.1.toNat_lt
  calc (editFieldsOf fields.entries).length
      ≤ fields.entries.length := List.length_filterMap_le _ _
    _ = (fields.entries.map fun f => f.1.toNat).length := List.length_map _ |>.symm
    _ ≤ (List.range 256).length := (hnodup.subperm hsub).length_le
    _ = 256 := List.length_range

/-- The first entry of the frame has the data. -/
theorem find_assignData {frameId : UInt32} {es : List CanTxEntry} {e : CanTxEntry}
    (h : es.find? (·.id = frameId) = some e) (buffer : List UInt8) :
    (assignData frameId buffer es).find? (·.id = frameId) = some { e with data := buffer } := by
  induction es with
  | nil => cases h
  | cons e' es ih =>
    rw [assignData]
    by_cases hid : e'.id = frameId
    · rw [List.find?_cons_of_pos (by simpa using hid), Option.some.injEq] at h
      rw [if_pos hid, h, List.find?_cons_of_pos (by simpa [h] using hid)]
    · rw [List.find?_cons_of_neg (by simpa using hid)] at h
      rw [if_neg hid, List.find?_cons_of_neg (by simpa using hid)]
      exact ih h

/-- The other frames are kept. -/
theorem find_assignData_of_ne {frameId frameId' : UInt32} (hne : frameId' ≠ frameId)
    (es : List CanTxEntry) (buffer : List UInt8) :
    (assignData frameId buffer es).find? (·.id = frameId') = es.find? (·.id = frameId') := by
  induction es with
  | nil => rfl
  | cons e es ih =>
    rw [assignData]
    split_ifs with hid
    · rw [List.find?_cons_of_neg (by simpa [hid] using hne.symm),
        List.find?_cons_of_neg (by simpa [hid] using hne.symm)]
    · rw [List.find?_cons, List.find?_cons, ih]

/-! ## Editing a frame -/

/-- The data in the buffer of eight bytes. -/
def padded (data : List UInt8) : List UInt8 := data ++ List.replicate (8 - data.length) 0

theorem length_padded {data : List UInt8} (h : data.length ≤ 8) : (padded data).length = 8 := by
  rw [padded, List.length_append, List.length_replicate]
  omega

theorem value_padded (f : EditField) (data : List UInt8) : f.value (padded data) = f.value data :=
  fieldAt_congr fun _ _ => bitAt_append_zeros data _ _

variable {h h' : CanEntryHandler} {frameId : UInt32} {e : CanTxEntry} {fields : CanFields}
  {newData : List (List Char)}

theorem memcpy_buffer {data : List UInt8} (hlen : data.length ≤ 8) :
    memcpy (List.replicate 8 0) 0 data 0 data.length = .ok (padded data) := by
  rw [memcpy_of_le (Nat.zero_add _).le, List.drop_zero, List.take_length, store,
    if_pos (by rw [List.length_replicate]; omega), List.take_zero, List.nil_append, Nat.zero_add,
    List.drop_replicate, padded]

/-- Data of more than eight bytes is copied over the end of the buffer. -/
theorem memcpy_buffer_of_lt {data : List UInt8} (hlen : 8 < data.length) :
    memcpy (List.replicate 8 0) 0 data 0 data.length = .error .store := by
  rw [memcpy_of_le (Nat.zero_add _).le, List.drop_zero, List.take_length, store,
    if_neg (by rw [List.length_replicate]; omega)]

variable (isLittleEndian behind) in
/-- Of a frame that is edited, the fields are. -/
theorem exists_applyEditing {base : List UInt8} (hmap : h.mapping frameId = some fields)
    (hcopy : (h.findTxCanEntryByFrame frameId).elim (.ok (List.replicate 8 0))
      (fun e => memcpy (List.replicate 8 0) 0 e.data 0 e.data.length) = .ok base)
    (hbase : base.length = 8) (hdata : (editFieldsOf fields.entries).length ≤ newData.length) :
    ∃ bs, h.applyEditingOnFrameId isLittleEndian behind frameId newData =
        .ok (h.assignNewBufferToTxEntry frameId bs) ∧
      EditedAll (editFieldsOf fields.entries) newData base bs := by
  have hzero : (0 : UInt8).toNat = 0 := rfl
  obtain ⟨cnt, bs, hedit, hall⟩ := exists_editFields isLittleEndian behind hbase
    (show (0 : UInt8).toNat + (editFieldsOf fields.entries).length ≤ 256 by
      rw [hzero, Nat.zero_add]
      exact length_editFieldsOf_le fields)
    (show (0 : UInt8).toNat + (editFieldsOf fields.entries).length ≤ newData.length by
      rwa [hzero, Nat.zero_add])
  refine ⟨bs, ?_, hall⟩
  rw [applyEditingOnFrameId, hcopy, hmap]
  change Except.bind (editFields _ _ _ _ _ _) _ = _
  rw [hedit]
  rfl

/-- Where a frame is edited, its data fits in the buffer. -/
theorem length_le_of_applyEditing
    (happly : h.applyEditingOnFrameId isLittleEndian behind frameId newData = .ok h') :
    ∀ e, h.findTxCanEntryByFrame frameId = some e → e.data.length ≤ 8 := by
  intro e hentry
  obtain ⟨bs, hcopy, -⟩ := exists_of_bind happly
  by_contra hlen
  rw [hentry, Option.elim_some, memcpy_buffer_of_lt (Nat.not_le.1 hlen)] at hcopy
  cases hcopy

/-- The bounds that are kept, where a frame with fields is edited. -/
theorem bounds_of_applyEditing (hmap : h.mapping frameId = some fields)
    (happly : h.applyEditingOnFrameId isLittleEndian behind frameId newData = .ok h') :
    (∀ e, h.findTxCanEntryByFrame frameId = some e → e.data.length ≤ 8) ∧
      (editFieldsOf fields.entries).length ≤ newData.length := by
  refine ⟨length_le_of_applyEditing happly, ?_⟩
  obtain ⟨bs, -, hrest⟩ := exists_of_bind happly
  rw [hmap] at hrest
  obtain ⟨r, hedit, -⟩ := exists_of_bind hrest
  rcases eq_or_ne (editFieldsOf fields.entries) [] with hnil | hne
  · rw [hnil]
    exact Nat.zero_le _
  · have hzero : (0 : UInt8).toNat = 0 := rfl
    have := le_of_editFields hedit
      (by rw [hzero, Nat.zero_add]; exact length_editFieldsOf_le fields) hne
    rwa [hzero, Nat.zero_add] at this

/-- An edit writes every text that is accepted into its own field, and keeps everything else: the
    fields of the other texts, the bits outside of all fields, and the other frames. The data
    becomes eight bytes. -/
theorem applyEditing_writes (hmap : h.mapping frameId = some fields)
    (hentry : h.findTxCanEntryByFrame frameId = some e)
    (hdisjoint : FieldsDisjoint (editFieldsOf fields.entries))
    (happly : h.applyEditingOnFrameId isLittleEndian behind frameId newData = .ok h') :
    ∃ e', h'.findTxCanEntryByFrame frameId = some e' ∧ e'.data.length = 8 ∧
      (∀ p ∈ (editFieldsOf fields.entries).zip newData,
        p.1.value e'.data = (p.1.accepts p.2).elim (p.1.value e.data) UInt64.toNat) ∧
      (∀ i, (∀ f ∈ editFieldsOf fields.entries, i < f.offset.toNat ∨ f.stop ≤ i) →
        bitAt e'.data i = bitAt e.data i) ∧
      ∀ i ≠ frameId, h'.findTxCanEntryByFrame i = h.findTxCanEntryByFrame i := by
  obtain ⟨hlen, hdata⟩ := bounds_of_applyEditing hmap happly
  obtain ⟨bs, heq, hall⟩ := exists_applyEditing isLittleEndian behind hmap
    (by rw [hentry]; exact memcpy_buffer (hlen e hentry)) (length_padded (hlen e hentry)) hdata
  obtain rfl := Except.ok.inj (happly.symm.trans heq)
  refine ⟨_, find_assignData hentry bs, ?_, fun p hp => ?_, fun i hi => ?_, fun i hi => ?_⟩
  · exact hall.length_eq.trans (length_padded (hlen e hentry))
  · rw [← value_padded p.1 e.data]
    exact hall.value_eq hdisjoint p hp
  · rw [← bitAt_append_zeros e.data (8 - e.data.length)]
    exact hall.kept hi
  · exact find_assignData_of_ne hi h.entries bs

variable {floatToText doubleToText : UInt64 → List Char} {data : List UInt8}

/-- The number that is read from a field, to be shown. -/
def shownBits (data : List UInt8) (f : UInt8 × CanMap) : UInt64 :=
  if 0 < f.2.size.toNat ∧ f.2.size.toNat ≤ 64 ∧ f.1.toNat + f.2.size.toNat ≤ 8 * data.length
    then .ofNat (fieldAt data f.1.toNat f.2.size.toNat) else 0

/-- The texts that are shown of the fields: those of invalid types are not. -/
def shownTexts (floatToText doubleToText : UInt64 → List Char) (fields : List (UInt8 × CanMap))
    (data : List UInt8) : List (List Char) :=
  fields.filterMap fun f =>
    (toText floatToText doubleToText f.2.type).map fun text => text (shownBits data f)

theorem shownTexts_cons_none {f : UInt8 × CanMap}
    (h : toText floatToText doubleToText f.2.type = none) (fs : List (UInt8 × CanMap)) :
    shownTexts floatToText doubleToText (f :: fs) data =
      shownTexts floatToText doubleToText fs data :=
  List.filterMap_cons_none (by rw [h]; rfl)

theorem shownTexts_cons_some {f : UInt8 × CanMap} {text : UInt64 → List Char}
    (h : toText floatToText doubleToText f.2.type = some text) (fs : List (UInt8 × CanMap)) :
    shownTexts floatToText doubleToText (f :: fs) data =
      text (shownBits data f) :: shownTexts floatToText doubleToText fs data :=
  List.filterMap_cons_some (by rw [h]; rfl)

theorem toText_of_not_float {type : CanBitfieldType} (h : type ≠ .float ∧ type ≠ .double) :
    toText floatToText doubleToText type =
      type.integral.map fun R v => intToString (R.convert v.toNat) := by
  rw [toText.eq_def]
  split
  · exact absurd rfl h.1
  · exact absurd rfl h.2
  · rfl

theorem toText_of_integral {type : CanBitfieldType} {T : IntegralType}
    (h : type.integral = some T) : toText floatToText doubleToText type =
      some fun v => intToString (T.convert v.toNat) := by
  have hne : type ≠ .float ∧ type ≠ .double := by
    constructor
    · rintro rfl
      cases h
    · rintro rfl
      cases h
  rw [toText_of_not_float hne, h]
  rfl

theorem toNat_shownBits (data : List UInt8) (f : UInt8 × CanMap) (T : IntegralType) :
    (shownBits data f).toNat = if EditField.Within ⟨f.1, f.2.size, T⟩ data
      then EditField.value ⟨f.1, f.2.size, T⟩ data else 0 := by
  by_cases hwithin : EditField.Within ⟨f.1, f.2.size, T⟩ data
  · rw [shownBits, if_pos hwithin, if_pos ⟨hwithin.1, hwithin.2⟩]
    exact UInt64.toNat_ofNat_of_lt' ((fieldAt_lt _ _ _).trans_le
      (Nat.pow_le_pow_right (by decide) hwithin.2.1))
  · rw [shownBits, if_neg hwithin, if_neg fun h => hwithin ⟨h.1, h.2⟩]
    rfl

/-- Without floating point numbers, every field that is edited is shown as it is read. -/
theorem shownTexts_eq (fields : List (UInt8 × CanMap))
    (hfloat : ∀ f ∈ fields, f.2.type ≠ .float ∧ f.2.type ≠ .double) :
    shownTexts floatToText doubleToText fields data =
      (editFieldsOf fields).map fun f => intToString (f.shown data) := by
  induction fields with
  | nil => rfl
  | cons f fields ih =>
    rw [List.forall_mem_cons] at hfloat
    cases hT : f.2.type.integral with
    | none =>
      have htext : toText floatToText doubleToText f.2.type = none := by
        rw [toText_of_not_float hfloat.1, hT]
        rfl
      rw [shownTexts_cons_none htext, editFieldsOf_cons_none hT, ih hfloat.2]
    | some T =>
      rw [shownTexts_cons_some (toText_of_integral hT), editFieldsOf_cons_some hT, List.map_cons,
        ih hfloat.2, EditField.shown, toNat_shownBits data f T]

/-- There is a text for every field that is edited. -/
theorem length_editFieldsOf_le_shownTexts (fields : List (UInt8 × CanMap)) :
    (editFieldsOf fields).length ≤
      (shownTexts floatToText doubleToText fields data).length := by
  induction fields with
  | nil => exact le_rfl
  | cons f fields ih =>
    cases hT : f.2.type.integral with
    | none =>
      rw [editFieldsOf_cons_none hT]
      cases htext : toText floatToText doubleToText f.2.type with
      | none => rwa [shownTexts_cons_none htext]
      | some text =>
        rw [shownTexts_cons_some htext]
        exact ih.trans (Nat.le_succ _)
    | some T =>
      rw [editFieldsOf_cons_some hT, shownTexts_cons_some (toText_of_integral hT)]
      exact Nat.succ_le_succ ih

/-- A field is shown. -/
theorem handleBitReading_eq (hentry : h.findTxCanEntryByFrame frameId = some e)
    (hlen : e.data.length ≤ 8) (text : UInt64 → List Char) (f : UInt8 × CanMap)
    (info : List CanBitfield) :
    handleBitReading isLittleEndian text h frameId false f.2 f.1 info =
      .ok (info ++ [⟨fieldLabel f.2 f.1, text (shownBits e.data f), f.2⟩]) := by
  have hsize : (UInt16.ofNat e.data.length).toNat = e.data.length := by
    rw [UInt16.toNat_ofNat']
    omega
  have hget : getBitfield isLittleEndian e.data (.ofNat e.data.length) f.1.toUInt16
      f.2.size.toUInt16 = .ok (shownBits e.data f) := by
    rw [getBitfield_eq hsize.le, hsize, UInt8.toNat_toUInt16, UInt8.toNat_toUInt16]
    rfl
  rw [handleBitReading, if_neg Bool.false_ne_true, hentry]
  change Except.bind (getBitfield _ _ _ _ _) _ = _
  rw [hget]
  rfl

variable (isLittleEndian floatToText doubleToText) in
/-- The fields are shown in their order. -/
theorem exists_getMapForFrameId (hmap : h.mapping frameId = some fields)
    (hentry : h.findTxCanEntryByFrame frameId = some e) (hlen : e.data.length ≤ 8) :
    ∃ info, getMapForFrameId isLittleEndian floatToText doubleToText h frameId false = .ok info ∧
      info.map CanBitfield.value =
        shownTexts floatToText doubleToText fields.entries e.data := by
  have hfold (fs : List (UInt8 × CanMap)) (acc : List CanBitfield) :
      ∃ info, fs.foldlM (fun info f =>
          (toText floatToText doubleToText f.2.type).elim (.ok info) fun text =>
            handleBitReading isLittleEndian text h frameId false f.2 f.1 info) acc =
          (.ok info : Except Fault _) ∧
        info.map CanBitfield.value =
          acc.map CanBitfield.value ++ shownTexts floatToText doubleToText fs e.data := by
    induction fs generalizing acc with
    | nil => exact ⟨acc, rfl, (List.append_nil _).symm⟩
    | cons f fs ih =>
      rw [List.foldlM_cons]
      cases htext : toText floatToText doubleToText f.2.type with
      | none =>
        obtain ⟨info, hinfo, hvalues⟩ := ih acc
        exact ⟨info, hinfo, by rwa [shownTexts_cons_none htext]⟩
      | some text =>
        rw [Option.elim_some, handleBitReading_eq hentry hlen]
        obtain ⟨info, hinfo, hvalues⟩ := ih _
        refine ⟨info, hinfo, ?_⟩
        rw [hvalues, shownTexts_cons_some htext, List.map_append, List.append_assoc]
        rfl
  obtain ⟨info, hinfo, hvalues⟩ := hfold fields.entries []
  refine ⟨info, ?_, hvalues⟩
  rw [getMapForFrameId, hmap]
  exact hinfo

/-- Texts that are written leave the data, but for the zeros behind it, iff every field keeps
    its number. -/
theorem eq_padded_iff_keptBy {fs : List EditField} {texts : List (List Char)} {bs : List UInt8}
    (hall : EditedAll fs texts (padded data) bs) (hdisjoint : FieldsDisjoint fs)
    (hlength : fs.length ≤ texts.length) :
    bs = padded data ↔ ∀ p ∈ fs.zip texts, p.1.KeptBy p.2 data := by
  have hvalue : ∀ p ∈ fs.zip texts,
      p.1.value bs = (p.1.accepts p.2).elim (p.1.value data) UInt64.toNat := fun p hp => by
    rw [← value_padded p.1 data]
    exact hall.value_eq hdisjoint p hp
  constructor
  · intro heq p hp w hw
    have := hvalue p hp
    rw [heq, value_padded, hw] at this
    exact this.symm
  · intro hkept
    refine bitAt_ext hall.length_eq fun i => ?_
    by_cases hi : ∀ f ∈ fs, i < f.offset.toNat ∨ f.stop ≤ i
    · exact hall.kept hi
    · push Not at hi
      obtain ⟨f, hf, hle, hlt⟩ := hi
      -- The bit is in a field, and this has a text.
      obtain ⟨text, hp⟩ : ∃ text, (f, text) ∈ fs.zip texts := by
        obtain ⟨k, hk, rfl⟩ := List.mem_iff_getElem.1 hf
        exact ⟨texts[k], List.mem_iff_getElem.2 ⟨k, by rw [List.length_zip]; omega,
          List.getElem_zip⟩⟩
      refine bitAt_eq_of_fieldAt_eq (o := f.offset.toNat) (n := f.size.toNat) ?_ hle hlt
      change f.value bs = f.value (padded data)
      rw [hvalue _ hp, value_padded]
      cases hw : f.accepts text with
      | none => rfl
      | some w => exact hkept _ hp w hw

/-- Writing the texts that are shown leaves the data, but for the zeros behind it, iff every field
    keeps its number with the text at its place; where there are no floating point numbers, this
    is its own. -/
theorem applyEditing_shown_iff (hmap : h.mapping frameId = some fields)
    (hentry : h.findTxCanEntryByFrame frameId = some e) (hlen : e.data.length ≤ 8)
    (hdisjoint : FieldsDisjoint (editFieldsOf fields.entries)) :
    ∃ info h' e',
      getMapForFrameId isLittleEndian floatToText doubleToText h frameId false = .ok info ∧
      h.applyEditingOnFrameId isLittleEndian behind frameId (info.map CanBitfield.value) = .ok h' ∧
      h'.findTxCanEntryByFrame frameId = some e' ∧
      (e'.data = e.data ++ List.replicate (8 - e.data.length) 0 ↔
        ∀ p ∈ (editFieldsOf fields.entries).zip
          (shownTexts floatToText doubleToText fields.entries e.data), p.1.KeptBy p.2 e.data) ∧
      ((∀ f ∈ fields.entries, f.2.type ≠ .float ∧ f.2.type ≠ .double) →
        (e'.data = e.data ++ List.replicate (8 - e.data.length) 0 ↔
          ∀ f ∈ editFieldsOf fields.entries, f.Kept e.data)) := by
  obtain ⟨info, hinfo, hvalues⟩ := exists_getMapForFrameId isLittleEndian floatToText
    doubleToText hmap hentry hlen
  have hcount : (editFieldsOf fields.entries).length ≤
      (shownTexts floatToText doubleToText fields.entries e.data).length :=
    length_editFieldsOf_le_shownTexts _
  obtain ⟨bs, happly, hall⟩ := exists_applyEditing isLittleEndian behind hmap
    (by rw [hentry]; exact memcpy_buffer hlen) (length_padded hlen) hcount
  have heq := eq_padded_iff_keptBy hall hdisjoint hcount
  refine ⟨info, h.assignNewBufferToTxEntry frameId bs, { e with data := bs }, hinfo,
    hvalues ▸ happly, find_assignData hentry bs, heq, fun hfloat => ?_⟩
  change bs = padded e.data ↔ _
  have hzip : (editFieldsOf fields.entries).zip
      ((editFieldsOf fields.entries).map fun f => intToString (f.shown e.data)) =
        (editFieldsOf fields.entries).map fun f => (f, intToString (f.shown e.data)) := by
    simpa using List.zip_map' (f := id) (g := fun f : EditField => intToString (f.shown e.data))
      (l := editFieldsOf fields.entries)
  rw [heq, shownTexts_eq _ hfloat, hzip, List.forall_mem_map]
  exact forall₂_congr fun f _ => (EditField.kept_iff hlen).symm

end CanEntryHandler

/-! ## A frame -/

/-- A byte, and a signed half of a byte. -/
def speedFields : CanFields where
  entries := [(0, ⟨"speed".toList, .ui8, 8, 0, 255⟩), (8, ⟨"trim".toList, .i8, 4, -8, 7⟩)]
  sorted := List.pairwise_pair.2 (by decide)

/-- A frame of two bytes with these fields. -/
def speedFrame (data : List UInt8) : CanEntryHandler where
  entries := [⟨0x100, data⟩]
  rxData := fun _ => none
  mapping := fun _ => some speedFields

namespace CanEntryHandler

theorem applyEditing_writes_speed :
    ∃ e', (speedFrame [0x50, 0xF0, 0, 0, 0, 0, 0, 0]).findTxCanEntryByFrame 0x100 = some e' ∧
      e'.data.length = 8 ∧
      (∀ p ∈ (editFieldsOf speedFields.entries).zip [['8', '0'], ['-', '1']],
        p.1.value e'.data = (p.1.accepts p.2).elim (p.1.value [0x2A, 0xF0]) UInt64.toNat) ∧
      (∀ i, (∀ f ∈ editFieldsOf speedFields.entries, i < f.offset.toNat ∨ f.stop ≤ i) →
        bitAt e'.data i = bitAt [0x2A, 0xF0] i) ∧
      ∀ i ≠ (0x100 : UInt32),
        (speedFrame [0x50, 0xF0, 0, 0, 0, 0, 0, 0]).findTxCanEntryByFrame i =
          (speedFrame [0x2A, 0xF0]).findTxCanEntryByFrame i :=
  applyEditing_writes (h := speedFrame [0x2A, 0xF0]) (e := ⟨0x100, [0x2A, 0xF0]⟩) rfl rfl
    (by decide) (show (speedFrame [0x2A, 0xF0]).applyEditingOnFrameId true 0 0x100
      [['8', '0'], ['-', '1']] = .ok _ from rfl)

theorem applyEditing_shown_iff_speed :
    ∃ info h' e',
      getMapForFrameId true (fun _ => []) (fun _ => []) (speedFrame [0x2A, 0xF0]) 0x100 false =
        .ok info ∧
      (speedFrame [0x2A, 0xF0]).applyEditingOnFrameId true 0 0x100 (info.map CanBitfield.value) =
        .ok h' ∧
      h'.findTxCanEntryByFrame 0x100 = some e' ∧
      (e'.data = [0x2A, 0xF0] ++ List.replicate (8 - 2) 0 ↔
        ∀ p ∈ (editFieldsOf speedFields.entries).zip
          (shownTexts (fun _ => []) (fun _ => []) speedFields.entries [0x2A, 0xF0]),
          p.1.KeptBy p.2 [0x2A, 0xF0]) ∧
      ((∀ f ∈ speedFields.entries, f.2.type ≠ .float ∧ f.2.type ≠ .double) →
        (e'.data = [0x2A, 0xF0] ++ List.replicate (8 - 2) 0 ↔
          ∀ f ∈ editFieldsOf speedFields.entries, f.Kept [0x2A, 0xF0])) :=
  applyEditing_shown_iff (e := ⟨0x100, [0x2A, 0xF0]⟩) rfl rfl (by decide) (by decide)

end CanEntryHandler

end QustomKeyboard
