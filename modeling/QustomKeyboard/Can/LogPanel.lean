import Mathlib
import QustomKeyboard.Theory.Cursor
import QustomKeyboard.Theory.Hexadecimal
import QustomKeyboard.Theory.Machine
import QustomKeyboard.Can.DidGrid

/-!
# The panel of the recorded frames

Every 10 ms the panel adds rows for the frames that have been recorded since the last tick, and
writes the statistics into a label. What happens to it are the events of a machine
(`canLogPanel`).

* The rows are those of the frames that have been recorded since the panel was stopped, each as
  the first tick after it finds it: a frame is inserted once, or filtered out for good
  (`rows_run`).
* The label is not written when only the text to search for is taken back. So it shows what the
  last tick has found, in every state of a run, iff there is always a frame in between
  (`labelFresh_iff`).

The text to search for is any at each tick: the panel has a member for it (`search_pattern`), which
nothing assigns so far. That the recorded frames are cleared by the button to stop is what the
declaration of `ClearRecording` says; its body is not readable. A tick is a single event: no frame
is recorded between its reading of the counts and of the frames.

The buttons other than the one to stop are left out, and so is the look of the cells. A number of
seconds is turned into a text by a parameter.
-/

namespace QustomKeyboard

open Theory

structure CanLogEntry where
  /-- In nanoseconds. -/
  lastExecution : ℤ
  direction : UInt8
  frameId : UInt32
  data : List UInt8

/-- The texts of the cells of a row. -/
structure CanLogRow where
  time : List Char
  direction : List Char
  id : List Char
  dataSize : List Char
  data : List Char
  comment : List Char
  deriving DecidableEq

/-- What a tick finds. -/
structure CanLogTick where
  searchPattern : List Char := []
  txFrameCount : UInt64
  rxFrameCount : UInt64
  rxEntryComment : UInt32 → Option (List Char) := fun _ => none
  /-- The identifiers and the comments of the frames that are sent. -/
  entries : List (UInt32 × List Char) := []
  /-- In nanoseconds. -/
  startTime : ℤ := 0

/-- The text of the label. -/
def statsText (searchPattern : List Char) (tx rx : UInt64) : List Char :=
  let counts := "TX: ".toList ++ Nat.toDigits 10 tx.toNat ++ ", RX: ".toList ++
    Nat.toDigits 10 rx.toNat ++ ", Total: ".toList ++ Nat.toDigits 10 (tx + rx).toNat
  if searchPattern.isEmpty then "Log :: ".toList ++ counts
  else "Log :: ".toList ++ "Filter: ".toList ++ searchPattern ++ ", ".toList ++ counts

structure CanLogPanel where
  /-- The recorded frames, which are kept by the handler. -/
  logEntries : List CanLogEntry := []
  rows : List CanLogRow := []
  logStatsLabel : List Char := statsText [] 0 0
  lastTxCnt : UInt64 := 0
  lastRxCnt : UInt64 := 0
  lastSearchPattern : List Char := []
  isSomethingInserted : Bool := false
  insertedUntil : ℕ := 0

/-- What happens to the panel. -/
inductive CanLogEvent
  /-- A frame is recorded. -/
  | record (e : CanLogEntry)
  | stop
  | on10MsTimer (t : CanLogTick)

/-- The comment of a frame. -/
def CanLogTick.comment (t : CanLogTick) (e : CanLogEntry) : List Char :=
  if e.direction = 1 then (t.rxEntryComment e.frameId).getD []
  else (t.entries.lookup e.frameId).getD []

/-- Whether a row is inserted for a frame. -/
def CanLogTick.insertsRow (t : CanLogTick) (e : CanLogEntry) : Bool :=
  t.searchPattern.isEmpty || DidTab.icontains (t.comment e) t.searchPattern

/-- How the cells are written. -/
structure CanLogTexts where
  /-- `CAN_LOG_DIR_TX` -/
  canLogDirTx : UInt8
  /-- `"{:.3f}"` of milliseconds as seconds. -/
  seconds : UInt64 → List Char
  /-- `utils::ConvertHexBufferToString` -/
  hexText : List UInt8 → List Char

/-- The row that `CanLogPanel::InsertRow` inserts. -/
def CanLogTexts.row (texts : CanLogTexts) (t : CanLogTick) (e : CanLogEntry) : CanLogRow where
  time := texts.seconds (UInt64.ofInt ((e.lastExecution - t.startTime).tdiv 1000000))
  direction := if e.direction = texts.canLogDirTx then "TX".toList else "RX".toList
  id := hexadecimal e.frameId.toNat
  dataSize := Nat.toDigits 10 e.data.length
  data := texts.hexText e.data
  comment := t.comment e

namespace CanLogPanel

variable (texts : CanLogTexts) (t : CanLogTick) (s : CanLogPanel)

/-- What `CanLogPanel::On10MsTimer` begins with. -/
def showStats : CanLogPanel :=
  let changed := s.lastTxCnt ≠ t.txFrameCount ∨ s.lastRxCnt ≠ t.rxFrameCount
  { s with
    logStatsLabel :=
      if t.searchPattern.isEmpty then
        if changed then statsText t.searchPattern t.txFrameCount t.rxFrameCount
        else s.logStatsLabel
      else
        if changed ∨ s.lastSearchPattern ≠ t.searchPattern then
          statsText t.searchPattern t.txFrameCount t.rxFrameCount
        else s.logStatsLabel
    lastTxCnt := t.txFrameCount
    lastRxCnt := t.rxFrameCount
    lastSearchPattern := t.searchPattern }

/-- An iteration of the loop over the recorded frames in `CanLogPanel::On10MsTimer`. -/
def insertEntry (e : CanLogEntry) : CanLogPanel :=
  { s with
    rows := if t.insertsRow e then s.rows ++ [texts.row t e] else s.rows
    insertedUntil := s.insertedUntil + 1 }

/-- Where `CanLogPanel::On10MsTimer` begins to insert, unless this is the end. -/
def insertFrom : Option ℕ :=
  if s.insertedUntil = 0 then some 0
  else if s.insertedUntil < s.logEntries.length then some s.insertedUntil
  else none

/-- What `CanLogPanel::On10MsTimer` ends with. -/
def insertEntries : CanLogPanel :=
  if s.logEntries = [] then s
  else
    let s := if s.isSomethingInserted then s else { s with insertedUntil := 0 }
    match s.insertFrom with
    | some n =>
      { (s.logEntries.drop n).foldl (insertEntry texts t) s with isSomethingInserted := true }
    | none => s

/-- `CanLogPanel::On10MsTimer` -/
def on10MsTimer : CanLogPanel := (s.showStats t).insertEntries texts t

/-- `CanLogPanel::ClearRecordingsFromGrid` -/
def clearRecordingsFromGrid : CanLogPanel :=
  { s with rows := [], isSomethingInserted := false, insertedUntil := 0 }

/-- The step of an event. The button to stop clears the recorded frames, too. -/
def step : CanLogEvent → CanLogPanel
  | .record e => { s with logEntries := s.logEntries ++ [e] }
  | .stop => { s.clearRecordingsFromGrid with logEntries := [] }
  | .on10MsTimer t => s.on10MsTimer texts t

end CanLogPanel

/-- The panel, with the handler that records the frames. -/
def canLogPanel (texts : CanLogTexts) : Machine CanLogPanel CanLogEvent where
  init := {}
  step s e := some (s.step texts e)

/-! ## The rows -/

/-- The row that a tick inserts for a frame, if any. -/
def CanLogTexts.inserted (texts : CanLogTexts) (t : CanLogTick) (e : CanLogEntry) :
    Option CanLogRow :=
  if t.insertsRow e then some (texts.row t e) else none

/-- The recorded frames with their first ticks, after an event. -/
def seeEvent (seen : List (CanLogEntry × Option CanLogTick)) :
    CanLogEvent → List (CanLogEntry × Option CanLogTick)
  | .record e => seen ++ [(e, none)]
  | .stop => []
  | .on10MsTimer t => seen.map (dealWith t)

namespace CanLogPanel

variable {texts : CanLogTexts} {t : CanLogTick} {s u : CanLogPanel}

/-- The recorded frames with the rows that have been inserted. -/
def view (s : CanLogPanel) : View CanLogEntry CanLogRow := ⟨s.logEntries, s.insertedUntil, s.rows⟩

theorem foldl_insertEntry (texts : CanLogTexts) (t : CanLogTick) (s : CanLogPanel)
    (es : List CanLogEntry) :
    es.foldl (insertEntry texts t) s =
      { s with
        rows := s.rows ++ es.filterMap (texts.inserted t)
        insertedUntil := s.insertedUntil + es.length } := by
  induction es generalizing s with
  | nil => simp
  | cons e es ih =>
    rw [List.foldl_cons, ih, insertEntry, List.filterMap_cons, CanLogTexts.inserted]
    split_ifs <;> simp [Nat.add_comm, Nat.add_left_comm]

/-- Nothing has been inserted unless this is noted. -/
def Noted (s : CanLogPanel) : Prop := s.isSomethingInserted = false → s.insertedUntil = 0

/-- The rows of all frames that have not been dealt with are inserted. -/
theorem insertEntries_eq (texts : CanLogTexts) (t : CanLogTick) (hnoted : s.Noted)
    (hle : s.insertedUntil ≤ s.logEntries.length) (hne : s.logEntries ≠ []) :
    s.insertEntries texts t =
      { s with
        rows := s.rows ++ (s.logEntries.drop s.insertedUntil).filterMap (texts.inserted t)
        insertedUntil := s.logEntries.length
        isSomethingInserted := true } := by
  -- The counter is only reset where it is zero already.
  have hreset : (if s.isSomethingInserted then s else { s with insertedUntil := 0 }) = s := by
    split_ifs with hflag
    · rfl
    · rw [← hnoted (Bool.eq_false_of_not_eq_true hflag)]
  simp only [insertEntries, if_neg hne, hreset, insertFrom]
  by_cases hzero : s.insertedUntil = 0
  · rw [if_pos hzero]
    simp [foldl_insertEntry, hzero]
  · rw [if_neg hzero]
    by_cases hlt : s.insertedUntil < s.logEntries.length
    · rw [if_pos hlt]
      simp [foldl_insertEntry, Nat.add_sub_cancel' hle]
    · -- All frames have been dealt with.
      have hend : s.insertedUntil = s.logEntries.length := le_antisymm hle (not_lt.1 hlt)
      have hflag : s.isSomethingInserted = true := by
        by_contra hflag
        exact hzero (hnoted (Bool.eq_false_of_not_eq_true hflag))
      rw [if_neg hlt, hend, List.drop_length, List.filterMap_nil, List.append_nil, ← hend, ← hflag]

theorem view_insertEntries (hnoted : s.Noted) (hle : s.insertedUntil ≤ s.logEntries.length) :
    (s.insertEntries texts t).view = s.view.update texts.inserted t := by
  by_cases hne : s.logEntries = []
  · have hzero : s.insertedUntil = 0 := by simpa [hne] using hle
    simp [insertEntries, view, View.update, hne, hzero]
  · rw [insertEntries_eq texts t hnoted hle hne]
    rfl

theorem noted_insertEntries (hnoted : s.Noted) (hle : s.insertedUntil ≤ s.logEntries.length) :
    (s.insertEntries texts t).Noted := by
  by_cases hne : s.logEntries = []
  · rwa [insertEntries, if_pos hne]
  · rw [insertEntries_eq texts t hnoted hle hne]
    exact fun h => Bool.noConfusion h

/-- What a run knows about the rows. -/
structure Shows (texts : CanLogTexts) (s : CanLogPanel)
    (seen : List (CanLogEntry × Option CanLogTick)) : Prop where
  noted : s.Noted
  renders : Renders texts.inserted s.view seen

theorem Shows.step {seen : List (CanLogEntry × Option CanLogTick)} (h : Shows texts s seen)
    (event : CanLogEvent) : Shows texts (s.step texts event) (seeEvent seen event) := by
  cases event with
  | record e => exact ⟨h.noted, h.renders.append e⟩
  | stop => exact ⟨fun _ => rfl, renders_nil⟩
  | on10MsTimer t =>
    -- The statistics do not touch what is shown of the frames.
    have hnoted : (s.showStats t).Noted := h.noted
    have hle : (s.showStats t).insertedUntil ≤ (s.showStats t).logEntries.length :=
      h.renders.cursor_le
    refine ⟨noted_insertEntries hnoted hle, ?_⟩
    change Renders texts.inserted ((s.showStats t).insertEntries texts t).view _
    rw [view_insertEntries hnoted hle]
    exact h.renders.update t

theorem Shows.run {seen : List (CanLogEntry × Option CanLogTick)} {es : List CanLogEvent}
    (h : Shows texts s seen) (hrun : (canLogPanel texts).run s es = some u) :
    Shows texts u (es.foldl seeEvent seen) := by
  induction es generalizing s seen with
  | nil => exact Option.some.inj hrun ▸ h
  | cons event es ih => exact ih (h.step event) hrun

/-- The texts of the cells, for less than ten seconds. -/
def shortTexts : CanLogTexts where
  canLogDirTx := 0
  seconds ms := Nat.toDigits 10 (ms.toNat / 1000) ++ ['.'] ++
    [ms.toNat / 100 % 10, ms.toNat / 10 % 10, ms.toNat % 10].map Nat.digitChar
  hexText := hexBytes

/-- Two frames, of which the first one is filtered out. -/
def twoFrames : List CanLogEvent :=
  [.record { lastExecution := 1250000000, direction := 0, frameId := 0x7E0, data := [0x3E, 0] },
   .on10MsTimer { searchPattern := ['s', 'p'], txFrameCount := 1, rxFrameCount := 0 },
   .record { lastExecution := 1300000000, direction := 1, frameId := 0x7E8, data := [0x7E] },
   .on10MsTimer { txFrameCount := 1, rxFrameCount := 1 }]

/-- The label shows what the last tick has found. -/
def LabelFresh (s : CanLogPanel) : Prop :=
  s.logStatsLabel = statsText s.lastSearchPattern s.lastTxCnt s.lastRxCnt

/-- A text to search for is not taken back without a frame in between. -/
def RefreshesLabel (s : CanLogPanel) : CanLogEvent → Prop
  | .on10MsTimer t => t.searchPattern = [] → s.lastSearchPattern ≠ [] →
      s.lastTxCnt ≠ t.txFrameCount ∨ s.lastRxCnt ≠ t.rxFrameCount
  | _ => True

instance : DecidablePred LabelFresh := fun s =>
  inferInstanceAs (Decidable (s.logStatsLabel = _))

instance (s : CanLogPanel) : ∀ event, Decidable (s.RefreshesLabel event)
  | .record _ => .isTrue trivial
  | .stop => .isTrue trivial
  | .on10MsTimer t => inferInstanceAs (Decidable (t.searchPattern = [] → _ → _))

theorem statsText_ne {searchPattern : List Char} (h : searchPattern ≠ []) (tx rx tx' rx' : UInt64) :
    statsText searchPattern tx rx ≠ statsText [] tx' rx' := by
  simp [statsText, h]

theorem labelFresh_insertEntries : (s.insertEntries texts t).LabelFresh ↔ s.LabelFresh := by
  simp only [insertEntries, insertFrom, foldl_insertEntry]
  split_ifs <;> rfl

theorem labelFresh_showStats (h : s.LabelFresh) :
    (s.showStats t).LabelFresh ↔ s.RefreshesLabel (.on10MsTimer t) := by
  simp only [LabelFresh, showStats, RefreshesLabel, List.isEmpty_iff]
  by_cases hchanged : s.lastTxCnt ≠ t.txFrameCount ∨ s.lastRxCnt ≠ t.rxFrameCount
  · simp [hchanged]
  · obtain ⟨htx, hrx⟩ : s.lastTxCnt = t.txFrameCount ∧ s.lastRxCnt = t.rxFrameCount := by
      simpa using hchanged
    rw [LabelFresh, htx, hrx] at h
    -- Nothing but the text to search for may have changed.
    by_cases hempty : t.searchPattern = []
    · by_cases hlast : s.lastSearchPattern = []
      · rw [hlast] at h
        simp [htx, hrx, hempty, hlast, h]
      · simpa [htx, hrx, hempty, hlast, h] using statsText_ne hlast _ _ _ _
    · by_cases hlast : s.lastSearchPattern = t.searchPattern
      · rw [hlast] at h
        simp [htx, hrx, hempty, hlast, h]
      · simp [hempty, hlast]

/-- In every state of a run the label shows what the last tick has found, iff a text to search
    for is never taken back without a frame in between. -/
theorem labelFresh_iff {es : List CanLogEvent}
    (h : (canLogPanel texts).run (canLogPanel texts).init es = some u) :
    (canLogPanel texts).Always LabelFresh (canLogPanel texts).init es ↔
      (canLogPanel texts).Meets RefreshesLabel (canLogPanel texts).init es := by
  refine Machine.always_iff_meets (I := fun _ => True) (fun _ _ => trivial) ?_ trivial rfl h
  rintro s _ event - hfresh hst
  obtain rfl := Option.some.inj hst
  cases event with
  | record e => exact iff_of_true hfresh trivial
  | stop => exact iff_of_true hfresh trivial
  | on10MsTimer t => exact labelFresh_insertEntries.trans (labelFresh_showStats hfresh)

theorem labelFresh_iff_two :
    (canLogPanel shortTexts).Always LabelFresh (canLogPanel shortTexts).init twoFrames := by
  have hrun : (canLogPanel shortTexts).run (canLogPanel shortTexts).init twoFrames =
    some (twoFrames.foldl (step shortTexts) {}) := rfl
  rw [labelFresh_iff hrun]
  decide

end CanLogPanel

end QustomKeyboard
