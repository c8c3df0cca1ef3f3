import Mathlib
import QustomKeyboard.Theory.Table
import QustomKeyboard.Theory.Hexadecimal
import QustomKeyboard.Can.DidGrid

/-!
# The grid of the received frames

Every 10 ms the received data are shown in a table (`on10MsTimer`). A map from the rows to the
data (`rxGridToEntry`) is searched for the row of a frame; a frame without a row gets one, which
is filled in by the next tick. The rows are counted by 16 bits in this map.

* Up to 65536 frames, the map and the rows are a table with the frames as keys (`Tabulates`). So
  there is a row for each frame that has been visited, in the order of the first visits, and it
  shows what the last visit has found, unless this is the first one (`rows_ticks`).
* Beyond 65536 frames, the rows of the map are overwritten, and every tick adds rows
  (`length_rows_ticks`).

The data of a frame are never moved: a pointer to them is given by the identifier of the frame.
That frames are removed by hand is left out, and so are the look of the cells, and the cells of the
period, the counter, the levels and the comment: a new row has some of these already, but it has no
identifier, size or data yet.
-/

namespace QustomKeyboard

open Theory

/-- The texts of the cells of a row that are set by `CanGridRx::UpdateRow`, as far as they have
    been set. -/
structure RxRow where
  id : Option (List Char) := none
  dataSize : Option (List Char) := none
  data : Option (List Char) := none
  deriving DecidableEq

structure CanGridRx where
  /-- The rows of the table. -/
  rows : List RxRow := []
  rxGridToEntry : OrderedMap (Fin (2 ^ 16)) UInt32 := {}

/-- What a tick finds. -/
structure RxTick where
  /-- The data of the frames, in the order of the traversal of the map. -/
  rxData : List (UInt32 × List UInt8)
  nodup : (rxData.map Prod.fst).Nodup
  rxEntryComment : UInt32 → Option (List Char) := fun _ => none
  searchPatternRx : List Char := []

namespace CanGridRx

variable (hexText : List UInt8 → List Char)

/-- The row that the data of a frame are shown in. -/
def shownRow (frameId : UInt32) (data : List UInt8) : RxRow where
  id := some (hexadecimal frameId.toNat)
  dataSize := some (Nat.toDigits 10 data.length)
  data := some (hexText data)

/-- `CanGridRx::AddRow` -/
def addRow (g : CanGridRx) (frameId : UInt32) : CanGridRx :=
  let numRow := g.rows.length
  { rows := g.rows ++ [{}]
    rxGridToEntry := g.rxGridToEntry.assign (Fin.ofNat (2 ^ 16) numRow) frameId }

/-- `CanGridRx::UpdateRow` -/
def updateRow (g : CanGridRx) (numRow : Fin (2 ^ 16)) (frameId : UInt32) (data : List UInt8) :
    CanGridRx :=
  { g with rows := g.rows.set numRow (shownRow hexText frameId data) }

/-- An iteration of the loop over the received data in `CanTab::On10MsTimer`. -/
def visit (g : CanGridRx) (entry : UInt32 × List UInt8) : CanGridRx :=
  match g.rxGridToEntry.findKey entry.1 with
  | some numRow => g.updateRow hexText numRow entry.1 entry.2
  | none => g.addRow entry.1

end CanGridRx

/-- The data that a tick shows: with a text to search for, those whose comment has it. -/
def RxTick.visited (t : RxTick) : List (UInt32 × List UInt8) :=
  if t.searchPatternRx.isEmpty then t.rxData
  else t.rxData.filter fun entry =>
    DidTab.icontains ((t.rxEntryComment entry.1).getD []) t.searchPatternRx

namespace CanGridRx

variable (hexText : List UInt8 → List Char)

/-- `CanTab::On10MsTimer` -/
def on10MsTimer (g : CanGridRx) (t : RxTick) : CanGridRx := t.visited.foldl (visit hexText) g

/-- The grid after some ticks. -/
def ticks (ts : List RxTick) (g : CanGridRx) : CanGridRx := ts.foldl (on10MsTimer hexText) g

/-! ## The grid as a table -/

/-- The map and the rows are a table with the frames as keys. -/
structure Tabulates (g : CanGridRx) (t : List (UInt32 × RxRow)) : Prop where
  rows : g.rows = t.map Prod.snd
  entries : g.rxGridToEntry.entries = t.mapIdx fun i r => (Fin.ofNat (2 ^ 16) i, r.1)
  nodup : (t.map Prod.fst).Nodup
  length_le : t.length ≤ 2 ^ 16

variable {hexText} {g : CanGridRx} {t : List (UInt32 × RxRow)} {e : UInt32 × List UInt8}

theorem tabulates_nil : Tabulates {} [] := ⟨rfl, rfl, List.nodup_nil, Nat.zero_le _⟩

namespace Tabulates

variable (h : Tabulates g t)
include h

theorem findKey_eq_none_iff {frameId : UInt32} :
    g.rxGridToEntry.findKey frameId = none ↔ frameId ∉ t.map Prod.fst := by
  rw [OrderedMap.findKey_eq_none_iff, h.entries]
  simp only [List.mem_mapIdx, List.mem_map, not_exists, not_and]
  constructor
  · rintro hne r hr heq
    obtain ⟨i, hi, rfl⟩ := List.getElem_of_mem hr
    exact hne _ ⟨i, hi, rfl⟩ heq
  · rintro hne - ⟨i, hi, rfl⟩
    exact hne _ (List.getElem_mem hi)

/-- The row that is found for a frame is the row of the frame. -/
theorem exists_of_findKey {frameId : UInt32} {n : Fin (2 ^ 16)}
    (hn : g.rxGridToEntry.findKey frameId = some n) :
    ∃ hlt : (n : ℕ) < t.length, t[(n : ℕ)].1 = frameId := by
  have hmem := OrderedMap.mem_of_findKey hn
  rw [h.entries, List.mem_mapIdx] at hmem
  obtain ⟨i, hi, heq⟩ := hmem
  obtain ⟨rfl, hid⟩ := Prod.mk.inj heq
  have hi' : (Fin.ofNat (2 ^ 16) i : ℕ) = i := Nat.mod_eq_of_lt (hi.trans_le h.length_le)
  exact ⟨hi'.symm ▸ hi, by simpa only [hi'] using hid⟩

/-- A visit shows the entry in the table, as long as the rows can be counted. -/
theorem visit (hle : (showEntry (shownRow hexText) {} t e).length ≤ 2 ^ 16) :
    Tabulates (g.visit hexText e) (showEntry (shownRow hexText) {} t e) := by
  have hnodup : ((showEntry (shownRow hexText) {} t e).map Prod.fst).Nodup :=
    nodup_showEntry h.nodup
  rw [CanGridRx.visit]
  cases hn : g.rxGridToEntry.findKey e.1 with
  | some n =>
    -- The row of the frame is written, and the map is kept.
    obtain ⟨hlt, hid⟩ := h.exists_of_findKey hn
    rw [showEntry_eq_set h.nodup hlt hid] at hnodup hle ⊢
    refine ⟨?_, ?_, hnodup, hle⟩
    · rw [List.map_set]
      exact congrArg (List.set · n _) h.rows
    · have hlt' : (n : ℕ) < (t.mapIdx fun i r => (Fin.ofNat (2 ^ 16) i, r.1)).length := by
        simpa using hlt
      have hown : (Fin.ofNat (2 ^ 16) n, e.1) =
          (t.mapIdx fun i r => (Fin.ofNat (2 ^ 16) i, r.1))[(n : ℕ)] := by
        rw [List.getElem_mapIdx, hid]
      rw [List.mapIdx_set, hown, List.set_getElem_self]
      exact h.entries
  | none =>
    -- The frame gets a row at the end, which is counted by a number that comes after all others.
    have hnew := h.findKey_eq_none_iff.1 hn
    rw [showEntry_of_notMem hnew] at hnodup hle ⊢
    refine ⟨?_, ?_, hnodup, hle⟩
    · rw [List.map_append]
      exact congrArg (· ++ _) h.rows
    · have hlen : g.rows.length = t.length := by rw [h.rows, List.length_map]
      rw [List.length_append] at hle
      rw [List.mapIdx_concat, ← h.entries, ← hlen]
      refine assignKey_of_lt fun a ha => ?_
      rw [h.entries, List.mem_mapIdx] at ha
      obtain ⟨i, hi, rfl⟩ := ha
      have hcount {j : ℕ} (hj : j ≤ t.length) : (Fin.ofNat (2 ^ 16) j : ℕ) = j :=
        Nat.mod_eq_of_lt (hj.trans_lt hle)
      rw [Fin.lt_def, hcount hi.le, hlen, hcount le_rfl]
      exact hi

/-- A tick shows a round of entries in the table. -/
theorem round {es : List (UInt32 × List UInt8)}
    (hle : (showRound (shownRow hexText) {} t es).length ≤ 2 ^ 16) :
    Tabulates (es.foldl (CanGridRx.visit hexText) g) (showRound (shownRow hexText) {} t es) := by
  induction es generalizing g t with
  | nil => exact h
  | cons e es ih => exact ih (h.visit (length_le_showRound.trans hle)) hle

variable (hexText) in
theorem ticks {ts : List RxTick}
    (hle : ((ts.map RxTick.visited).foldl (showRound (shownRow hexText) {}) t).length ≤ 2 ^ 16) :
    Tabulates (g.ticks hexText ts)
      ((ts.map RxTick.visited).foldl (showRound (shownRow hexText) {}) t) := by
  induction ts generalizing g t with
  | nil => exact h
  | cons s ts ih => exact ih (h.round (length_le_foldl_showRound.trans hle)) hle

end Tabulates

theorem nodup_visited (t : RxTick) : (t.visited.map Prod.fst).Nodup := by
  rw [RxTick.visited]
  split_ifs
  · exact t.nodup
  · exact (List.filter_sublist.map Prod.fst).nodup t.nodup

/-- The frames that have been visited, in the order of the first visits. -/
def frames (ts : List RxTick) : List UInt32 := firstKeys (ts.map RxTick.visited)

/-- The data that the visits of a frame have found. -/
def found (ts : List RxTick) (frameId : UInt32) : List (List UInt8) :=
  history (ts.map RxTick.visited) frameId

variable {ts ts' : List RxTick} {frameId : UInt32}

variable (hexText) in
theorem tabulates_ticks (h : (frames ts).length ≤ 2 ^ 16) :
    Tabulates (ticks hexText ts {}) ((frames ts).map fun frameId =>
      (frameId, lastShown (shownRow hexText) {} frameId (found ts frameId))) := by
  have hvisited : ∀ es ∈ ts.map RxTick.visited, (es.map Prod.fst).Nodup := by
    simpa using fun t _ => nodup_visited t
  have hrounds := rounds_eq (shownRow hexText) {} hvisited
  have hticks := tabulates_nil.ticks hexText (by rwa [hrounds, List.length_map])
  rwa [hrounds] at hticks

/-- As long as there are at most 65536 frames, the grid has a row for each frame that has been
    visited, in the order of the first visits. It shows the frame with the data that the last
    visit has found, and nothing before the second visit. -/
theorem rows_ticks (h : (frames ts).length ≤ 2 ^ 16) :
    (ticks hexText ts {}).rows = (frames ts).map fun frameId =>
      lastShown (shownRow hexText) {} frameId (found ts frameId) := by
  rw [(tabulates_ticks hexText h).rows, List.map_map]
  rfl

/-- Two ticks, the second one for the frames whose comment has a text. -/
def speedTicks : List RxTick :=
  [{ rxData := [(0x7E0, [1]), (0x18DAF110, [2, 3])]
     nodup := by decide },
   { rxData := [(0x18DAF110, [4, 5]), (0x7E0, [1])]
     nodup := by decide
     rxEntryComment := fun frameId =>
       if frameId = 0x7E0 then none else some ['S', 'p', 'e', 'e', 'd']
     searchPatternRx := ['s', 'p'] }]

theorem rows_ticks_speed :
    (ticks hexBytes speedTicks {}).rows = [{}, shownRow hexBytes 0x18DAF110 [4, 5]] :=
  (rows_ticks (by decide)).trans (by decide)

theorem id_lastShown {vs : List (List UInt8)} :
    (lastShown (shownRow hexText) {} frameId vs).id =
      vs.tail.getLast?.map fun _ => hexadecimal frameId.toNat := by
  rw [lastShown]
  cases vs.tail.getLast? <;> rfl

/-- The row of a frame displays no other frame. -/
theorem id_lastShown_iff {vs : List (List UInt8)} {frameId' : UInt32} :
    (lastShown (shownRow hexText) {} frameId vs).id = some (hexadecimal frameId'.toNat) ↔
      frameId = frameId' ∧ vs.tail.getLast?.isSome := by
  rw [id_lastShown]
  cases vs.tail.getLast? with
  | none => simp
  | some data =>
    simp only [Option.map_some, Option.some.injEq, Option.isSome_some, and_true]
    exact ⟨fun h => UInt32.toNat_inj.1 (hexadecimal_inj h), fun h => h ▸ rfl⟩

/-- What a row displays goes on being displayed. -/
theorem id_lastShown_append {vs ws : List (List UInt8)} {text : List Char}
    (h : (lastShown (shownRow hexText) {} frameId vs).id = some text) :
    (lastShown (shownRow hexText) {} frameId (vs ++ ws)).id = some text := by
  rw [id_lastShown] at h ⊢
  obtain ⟨data, hlast, rfl⟩ := Option.map_eq_some_iff.1 h
  have hne : vs ≠ [] := by rintro rfl; cases hlast
  rw [List.tail_append_of_ne_nil hne, List.getLast?_append, hlast]
  cases ws.getLast? <;> rfl

/-- The rows that display a frame: a single one with the data of the last visit, from the second
    visit on. -/
theorem filter_rows_ticks (h : (frames ts).length ≤ 2 ^ 16) (frameId : UInt32) :
    (ticks hexText ts {}).rows.filter (·.id = some (hexadecimal frameId.toNat)) =
      ((found ts frameId).tail.getLast?.map (shownRow hexText frameId)).toList := by
  rw [(tabulates_ticks hexText h).rows, List.map_map, List.filter_map]
  cases hlast : (found ts frameId).tail.getLast? with
  | none =>
    -- The row of the frame, if any, is blank.
    refine List.map_eq_nil_iff.2 (List.filter_eq_nil_iff.2 fun frameId' _ heq => ?_)
    obtain ⟨rfl, hsome⟩ := id_lastShown_iff.1 (of_decide_eq_true heq)
    rw [hlast] at hsome
    cases hsome
  | some data =>
    -- The frame is one of the frames, which are all different.
    have hmem : frameId ∈ frames ts := by
      by_contra hnew
      rw [show found ts frameId = [] from history_eq_nil_iff.2 hnew] at hlast
      cases hlast
    have hone : (frames ts).filter (· = frameId) = [frameId] := by
      have hnodup : (frames ts).Nodup := nodup_firstKeys
      rw [List.filter_eq, List.count_eq_one_of_mem hnodup hmem]
      rfl
    rw [List.filter_congr (q := (· = frameId)) fun frameId' _ => ?_, hone, List.map_singleton]
    · exact congrArg (fun o => [o.elim {} (shownRow hexText frameId)]) hlast
    · refine decide_eq_decide.2 (id_lastShown_iff.trans ⟨And.left, ?_⟩)
      rintro rfl
      exact ⟨rfl, hlast ▸ rfl⟩

theorem filter_rows_ticks_speed :
    (ticks hexBytes speedTicks {}).rows.filter
        (·.id = some (hexadecimal (0x18DAF110 : UInt32).toNat)) =
      [shownRow hexBytes 0x18DAF110 [4, 5]] :=
  (filter_rows_ticks (by decide) 0x18DAF110).trans (by decide)

/-- A row never changes its frame: what it has been displaying is displayed by it as well after
    all further ticks. -/
theorem id_ticks_append (h : (frames (ts ++ ts')).length ≤ 2 ^ 16) {n : ℕ} {text : List Char}
    (hn : ((ticks hexText ts {}).rows[n]?.bind RxRow.id) = some text) :
    ((ticks hexText (ts ++ ts') {}).rows[n]?.bind RxRow.id) = some text := by
  have hframes : frames ts <+: frames (ts ++ ts') := by
    rw [frames, frames, List.map_append]
    exact firstKeys_prefix _ _
  have hfound (frameId : UInt32) :
      found (ts ++ ts') frameId = found ts frameId ++ found ts' frameId := by
    rw [found, List.map_append]
    exact history_append _ _ _
  rw [(tabulates_ticks hexText (hframes.length_le.trans h)).rows, List.map_map, List.getElem?_map,
    Option.bind_map] at hn
  obtain ⟨frameId, hframe, hid⟩ := Option.bind_eq_some_iff.1 hn
  have hframe' : (frames (ts ++ ts'))[n]? = some frameId := by
    obtain ⟨more, hmore⟩ := hframes
    rw [← hmore, List.getElem?_append_left (List.getElem?_eq_some_iff.1 hframe).1, hframe]
  rw [(tabulates_ticks hexText h).rows, List.map_map, List.getElem?_map, Option.bind_map, hframe']
  simp only [Option.bind_some, Function.comp_apply, hfound] at hid ⊢
  exact id_lastShown_append hid

theorem id_ticks_append_speed :
    ((ticks hexBytes (speedTicks ++ speedTicks.take 1) {}).rows[1]?.bind RxRow.id) =
      some (hexadecimal (0x18DAF110 : UInt32).toNat) :=
  id_ticks_append (by decide) (by decide)

/-! ## More frames than the map can count -/

@[simp] theorem length_rows_addRow (g : CanGridRx) (frameId : UInt32) :
    (g.addRow frameId).rows.length = g.rows.length + 1 := List.length_append

variable (hexText) in
@[simp] theorem length_rows_updateRow (g : CanGridRx) (numRow : Fin (2 ^ 16)) (frameId : UInt32)
    (data : List UInt8) : (g.updateRow hexText numRow frameId data).rows.length = g.rows.length :=
  List.length_set

/-- The rows of the map that are for frames of a list. -/
def awaiting (g : CanGridRx) (es : List (UInt32 × List UInt8)) : ℕ :=
  g.rxGridToEntry.entries.countP fun r => r.2 ∈ es.map Prod.fst

theorem awaiting_le (g : CanGridRx) (es : List (UInt32 × List UInt8)) : g.awaiting es ≤ 2 ^ 16 :=
  List.countP_le_length.trans (g.rxGridToEntry.length_le_card.trans_eq (Fintype.card_fin _))

theorem countP_mem_cons_le (e : UInt32 × List UInt8) (es : List (UInt32 × List UInt8))
    (l : List (Fin (2 ^ 16) × UInt32)) :
    l.countP (fun r => r.2 ∈ es.map Prod.fst) ≤ l.countP (fun r => r.2 ∈ (e :: es).map Prod.fst) :=
  List.countP_mono_left fun _ _ hr =>
    decide_eq_true (List.mem_cons_of_mem _ (of_decide_eq_true hr))

theorem awaiting_lt_of_mem {es : List (UInt32 × List UInt8)} {n : Fin (2 ^ 16)}
    (he : e.1 ∉ es.map Prod.fst) (hn : (n, e.1) ∈ g.rxGridToEntry.entries) :
    g.awaiting es < g.awaiting (e :: es) := by
  obtain ⟨before, after, hentries⟩ := List.append_of_mem hn
  rw [awaiting, awaiting, hentries, List.countP_append, List.countP_append,
    List.countP_cons_of_neg (by simpa using he), List.countP_cons_of_pos (by simp)]
  have hbefore := countP_mem_cons_le e es before
  have hafter := countP_mem_cons_le e es after
  omega

variable (hexText) in
theorem length_rows_le (g : CanGridRx) (es : List (UInt32 × List UInt8)) :
    g.rows.length ≤ (es.foldl (visit hexText) g).rows.length := by
  induction es generalizing g with
  | nil => exact le_rfl
  | cons e es ih =>
    refine le_trans ?_ (ih (g.visit hexText e))
    rw [visit]
    cases g.rxGridToEntry.findKey e.1 with
    | some n => exact (g.length_rows_updateRow hexText n e.1 e.2).ge
    | none => exact (Nat.le_succ _).trans_eq (g.length_rows_addRow e.1).symm

variable (hexText) in
/-- Each frame that is visited gets a row, or uses up a row of the map. -/
theorem length_rows_foldl {es : List (UInt32 × List UInt8)} (h : (es.map Prod.fst).Nodup) :
    g.rows.length + es.length ≤ (es.foldl (visit hexText) g).rows.length + g.awaiting es := by
  induction es generalizing g with
  | nil => exact Nat.le_add_right _ _
  | cons e es ih =>
    obtain ⟨he, hes⟩ := List.nodup_cons.1 (List.map_cons ▸ h)
    have hrest := ih (g := g.visit hexText e) hes
    rw [List.foldl_cons, List.length_cons]
    rw [visit] at hrest ⊢
    cases hn : g.rxGridToEntry.findKey e.1 with
    | some n =>
      -- The row that has been found is not found again.
      have hlt : (g.updateRow hexText n e.1 e.2).awaiting es < g.awaiting (e :: es) :=
        awaiting_lt_of_mem he (OrderedMap.mem_of_findKey hn)
      rw [hn] at hrest
      simp only [length_rows_updateRow] at hrest ⊢
      omega
    | none =>
      -- A row of the map may be overwritten, but not for a frame that is yet to come.
      have hle : (g.addRow e.1).awaiting es ≤ g.awaiting (e :: es) :=
        (countP_assignKey_le (p := fun frameId => frameId ∈ es.map Prod.fst)
          (decide_eq_false he)).trans (countP_mem_cons_le e es _)
      rw [hn] at hrest
      simp only [length_rows_addRow] at hrest ⊢
      omega

/-- Every tick adds a row for each frame that it visits beyond 65536 of them. -/
theorem length_rows_ticks (g : CanGridRx) (ts : List RxTick) :
    g.rows.length + (ts.map fun t => t.visited.length - 2 ^ 16).sum ≤
      (g.ticks hexText ts).rows.length := by
  induction ts generalizing g with
  | nil => exact le_rfl
  | cons t ts ih =>
    have htick := length_rows_foldl hexText (g := g) (nodup_visited t)
    have hgrows := g.length_rows_le hexText t.visited
    have hawaiting := g.awaiting_le t.visited
    have hrest := ih (g.on10MsTimer hexText t)
    rw [List.map_cons, List.sum_cons]
    change _ ≤ ((g.on10MsTimer hexText t).ticks hexText ts).rows.length
    rw [on10MsTimer] at hrest ⊢
    omega

end CanGridRx

end QustomKeyboard
