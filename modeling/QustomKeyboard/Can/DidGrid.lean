import Mathlib
import QustomKeyboard.Theory.Hexadecimal
import QustomKeyboard.Theory.Machine

/-!
# The grid of DIDs

The tab of the DIDs shows them in a table, and has two maps to find its way: from the DIDs
to their rows (`didToRow`) and from the rows to the entries of their DIDs (`gridToEntry`).
What happens to the tab are the events of a machine (`didTab`).

* The counter that `gridToEntry` is filled by is never counted up, and so it is only right
  for a single row.
* When the table is filled anew, `didToRow` keeps the rows of the DIDs that are not shown
  any more.

So the maps are right, and what is reported is written into the row of its own DID, iff the
table never has two rows, and nothing is reported while it has none (`inStep_iff`).

Entries are never moved: a pointer to one of them is given by its DID. The look of the cells
is left out.
-/

namespace QustomKeyboard

open Theory

inductive DidEntryType
  | ui8 | ui16 | ui32 | ui64 | string | bytearray | invalid
  deriving DecidableEq

/-- `XmlDidLoader::GetStringFromType` -/
def DidEntryType.getString : DidEntryType → List Char
  | .ui8 => "uint8_t".toList
  | .ui16 => "uint16_t".toList
  | .ui32 => "uint32_t".toList
  | .ui64 => "uint64_t".toList
  | .string => "string".toList
  | .bytearray => "bytearray".toList
  | .invalid => "invalid".toList

structure DidEntry where
  id : UInt16
  type : DidEntryType
  name : List Char
  valueStr : List Char := []
  /-- Informative only. -/
  min : List Char := []
  /-- Informative only. -/
  max : List Char := []
  len : ℕ := 0
  nrc : UInt16 := 0
  /-- As an ISO string, if it is a time. -/
  lastUpdate : Option (List Char) := none
  deriving DecidableEq

/-- `DidMap`: the entries in the order of their DIDs. -/
structure DidMap where
  entries : List DidEntry
  sorted : entries.Pairwise fun a b => a.id < b.id

/-- The DIDs of a list. -/
def DidMap.ids (m : DidMap) : List UInt16 := m.entries.map DidEntry.id

/-- The entry of a DID. -/
def DidMap.find (m : DidMap) (did : UInt16) : Option DidEntry := m.entries.find? (·.id = did)

/-- What has been read of a DID. -/
structure DidReading where
  valueStr : List Char
  nrc : UInt16
  lastUpdate : Option (List Char)
  deriving DecidableEq

/-- The entry of a DID with what has been read. -/
def DidEntry.read (did : UInt16) (r : DidReading) (e : DidEntry) : DidEntry :=
  if e.id = did then { e with valueStr := r.valueStr, nrc := r.nrc, lastUpdate := r.lastUpdate }
  else e

@[simp] theorem DidEntry.id_read (did : UInt16) (r : DidReading) (e : DidEntry) :
    (e.read did r).id = e.id := by
  rw [DidEntry.read]
  split_ifs <;> rfl

/-- The list with what has been read of a DID. -/
def DidMap.read (m : DidMap) (did : UInt16) (r : DidReading) : DidMap where
  entries := m.entries.map (DidEntry.read did r)
  sorted := by simpa [List.pairwise_map] using m.sorted

/-- The texts of the cells of a row. -/
structure DidRow where
  did : List Char
  type : List Char
  name : List Char
  value : List Char
  len : List Char
  minVal : List Char
  maxVal : List Char
  timestamp : List Char
  deriving DecidableEq

structure DidGrid where
  /-- The rows of the table. -/
  rows : List DidRow := []
  gridToEntry : UInt16 → Option UInt16 := fun _ => none
  /-- A DID that is looked up without having a row gets row 0. -/
  didToRow : UInt16 → UInt16 := fun _ => 0
  cnt : ℕ := 0

/-- The row that an entry is shown in. The time stamp is "N/A" before it is overwritten, also
    by an empty text. -/
def DidEntry.row (e : DidEntry) : DidRow where
  did := hexadecimal e.id.toNat
  type := e.type.getString
  name := e.name
  value := e.valueStr
  len := Nat.toDigits 10 e.len
  minVal := e.min
  maxVal := e.max
  timestamp := e.lastUpdate.getD []

/-- `DidGrid::AddRow` -/
def DidGrid.addRow (g : DidGrid) (e : DidEntry) : DidGrid :=
  let numRow := g.rows.length
  { g with
    rows := g.rows ++ [e.row]
    gridToEntry := Function.update g.gridToEntry (UInt16.ofNat g.cnt) (some e.id)
    didToRow := Function.update g.didToRow e.id (UInt16.ofNat numRow) }

/-- What is shown as the value of an entry that has been reported. -/
def DidEntry.valueText (e : DidEntry) : List Char :=
  if e.nrc ≠ 0 then
    if e.nrc = 0x78 then "Pending... NRC 78".toList
    else "NRC: ".toList ++ hexadecimal e.nrc.toNat
  else e.valueStr

/-- An iteration of the loop over the updated DIDs in `DidTab::On100msTimer`. There is a null
    pointer if the DID has no entry, or the row has no cells. -/
def DidGrid.showDid (m : DidMap) (g : DidGrid) (did : UInt16) : Option DidGrid := do
  let e ← m.find did
  let didRow := (g.didToRow did).toNat
  let row ← g.rows[didRow]?
  return { g with
    rows := g.rows.set didRow
      { row with value := e.valueText, timestamp := e.lastUpdate.getD row.timestamp } }

structure DidTab where
  didList : DidMap
  updatedDids : List UInt16 := []
  grid : DidGrid := {}
  isDidsInitialized : Bool := false
  searchPattern : List Char := []

namespace DidTab

variable (s : DidTab)

/-- `boost::icontains` -/
def icontains (input test : List Char) : Bool := test.map Char.toUpper <:+: input.map Char.toUpper

/-- The entries that `DidTab::UpdateDidList` adds rows for. -/
def matching : List DidEntry :=
  s.didList.entries.filter fun e => s.searchPattern.isEmpty || icontains e.name s.searchPattern

/-- The grid without rows. -/
def cleared : DidGrid := { s.grid with rows := [], cnt := 0 }

/-- `DidTab::UpdateDidList` -/
def updateDidList : DidTab :=
  { s with
    updatedDids := s.matching.map DidEntry.id
    grid := s.matching.foldl DidGrid.addRow s.cleared }

/-- What the first call of `DidTab::On100msTimer` begins with. -/
def initialized : DidTab :=
  if s.isDidsInitialized then s
  else
    { s with
      grid := s.didList.entries.foldl DidGrid.addRow s.grid
      isDidsInitialized := true }

/-- `DidTab::On100msTimer` -/
def on100msTimer : Option DidTab :=
  (s.updatedDids.foldlM (DidGrid.showDid s.didList) s.initialized.grid).map fun grid =>
    { s.initialized with grid := grid, updatedDids := [] }

end DidTab

/-- What happens to the tab. -/
inductive DidEvent
  /-- There is another text to search for. -/
  | search (pattern : List Char)
  | updateDidList
  | on100msTimer
  /-- The handler reports a DID of the list. -/
  | report (did : UInt16) (r : DidReading)

/-- The step of an event. -/
def DidTab.step (s : DidTab) : DidEvent → Option DidTab
  | .search pattern => some { s with searchPattern := pattern }
  | .updateDidList => some s.updateDidList
  | .on100msTimer => s.on100msTimer
  | .report did r =>
    if did ∈ s.didList.ids then
      some { s with didList := s.didList.read did r, updatedDids := s.updatedDids ++ [did] }
    else none

/-- The tab of a list of DIDs. -/
def didTab (m : DidMap) : Machine DidTab DidEvent where
  init := { didList := m }
  step := DidTab.step

/-! ## What should hold -/

/-- The DIDs that the rows display. -/
def DidGrid.shown (g : DidGrid) : List (List Char) := g.rows.map DidRow.did

/-- Row `r` displays the DID. -/
def DidGrid.Shows (g : DidGrid) (r : ℕ) (did : UInt16) : Prop :=
  g.shown[r]? = some (hexadecimal did.toNat)

/-- The maps are right about every row. -/
def DidGrid.InStep (g : DidGrid) : Prop :=
  ∀ r did, g.Shows r did →
    (g.didToRow did).toNat = r ∧ g.gridToEntry (UInt16.ofNat r) = some did

/-- The call of `DidTab::On100msTimer` returns, and what it writes about a DID is written into
    a row that displays this DID. -/
structure DidTab.TickInPlace (s : DidTab) : Prop where
  returns : ∃ t, s.on100msTimer = some t
  inPlace : ∀ front did back, s.updatedDids = front ++ did :: back →
    ∃ g, front.foldlM (DidGrid.showDid s.didList) s.initialized.grid = some g ∧
      g.Shows (g.didToRow did).toNat did

/-- The maps are right after every row that is added, and when the call is done; and the
    calls of `DidTab::On100msTimer` write in place. -/
def EventInStep (s : DidTab) : DidEvent → Prop
  | .updateDidList =>
    ∀ front, front <+: s.matching → (front.foldl DidGrid.addRow s.cleared).InStep
  | .on100msTimer =>
    (s.isDidsInitialized = false →
      (∀ front, front <+: s.didList.entries → (front.foldl DidGrid.addRow s.grid).InStep) ∧
      ∀ t, s.on100msTimer = some t → t.grid.InStep) ∧ s.TickInPlace
  | _ => True

/-- The table does not get a second row; and nothing has been reported to a later call of
    `DidTab::On100msTimer` if there is no row. -/
def AtMostOneRow (s : DidTab) : DidEvent → Prop
  | .updateDidList => s.matching.length ≤ 1
  | .on100msTimer =>
    if s.isDidsInitialized then s.updatedDids = [] ∨ s.grid.rows ≠ []
    else s.grid.rows.length + s.didList.entries.length ≤ 1
  | _ => True

instance (s : DidTab) : ∀ e, Decidable (AtMostOneRow s e)
  | .updateDidList => inferInstanceAs (Decidable (_ ≤ _))
  | .on100msTimer => inferInstanceAs (Decidable (if s.isDidsInitialized then _ else _))
  | .search _ => .isTrue trivial
  | .report _ _ => .isTrue trivial

/-! ## Adding rows -/

variable {g g' : DidGrid} {m : DidMap}

/-- The texts of the DIDs. -/
def didTexts (dids : List UInt16) : List (List Char) := dids.map fun did => hexadecimal did.toNat

@[simp] theorem shown_addRow (g : DidGrid) (e : DidEntry) :
    (g.addRow e).shown = g.shown ++ [hexadecimal e.id.toNat] := by
  rw [DidGrid.shown, DidGrid.addRow, List.map_append]
  rfl

theorem shown_addRows (g : DidGrid) (l : List DidEntry) :
    (l.foldl DidGrid.addRow g).shown = g.shown ++ didTexts (l.map DidEntry.id) := by
  induction l generalizing g with
  | nil => exact (List.append_nil _).symm
  | cons e l ih =>
    rw [List.foldl_cons, ih, shown_addRow, List.append_assoc]
    rfl

/-- The counter is still zero: only the entry of row 0 is ever set. -/
structure Uncounted (g : DidGrid) : Prop where
  cnt : g.cnt = 0
  unset : ∀ k ≠ 0, g.gridToEntry k = none

theorem Uncounted.addRow (h : Uncounted g) (e : DidEntry) : Uncounted (g.addRow e) where
  cnt := h.cnt
  unset k hk := by
    rw [DidGrid.addRow, h.cnt]
    exact (Function.update_of_ne hk _ _).trans (h.unset k hk)

theorem Uncounted.addRows (h : Uncounted g) (l : List DidEntry) :
    Uncounted (l.foldl DidGrid.addRow g) := by
  induction l generalizing g with
  | nil => exact h
  | cons e l ih => exact ih (h.addRow e)

/-- There are at most one row, and the maps are right about it. -/
structure SingleRow (g : DidGrid) (dids : List UInt16) : Prop where
  shown : g.shown = didTexts dids
  length_le : dids.length ≤ 1
  didToRow : ∀ did ∈ dids, g.didToRow did = 0
  gridToEntry : ∀ did ∈ dids, g.gridToEntry 0 = some did

theorem length_didTexts (dids : List UInt16) : (didTexts dids).length = dids.length :=
  List.length_map _

theorem length_rows_of_shown {dids : List UInt16} (h : g.shown = didTexts dids) :
    g.rows.length = dids.length := by
  have hlen := congrArg List.length h
  rwa [DidGrid.shown, List.length_map, length_didTexts] at hlen

theorem SingleRow.length_rows {dids : List UInt16} (h : SingleRow g dids) :
    g.rows.length = dids.length :=
  length_rows_of_shown h.shown

theorem hexadecimal_toNat_inj {did did' : UInt16}
    (h : hexadecimal did.toNat = hexadecimal did'.toNat) : did = did' :=
  UInt16.toNat_inj.1 (hexadecimal_inj h)

theorem SingleRow.inStep {dids : List UInt16} (h : SingleRow g dids) : g.InStep := by
  intro r did hshows
  rw [DidGrid.Shows, h.shown, didTexts, List.getElem?_map, Option.map_eq_some_iff] at hshows
  obtain ⟨did', hdid', heq⟩ := hshows
  obtain rfl := hexadecimal_toNat_inj heq
  obtain ⟨hlt, -⟩ := List.getElem?_eq_some_iff.1 hdid'
  have hle := h.length_le
  obtain rfl : r = 0 := by omega
  have hmem := List.mem_of_getElem? hdid'
  exact ⟨by rw [h.didToRow _ hmem]; rfl, h.gridToEntry _ hmem⟩

/-- The maps are not right about a second row. -/
theorem Uncounted.not_inStep {dids : List UInt16} (h : Uncounted g) (hshown : g.shown = didTexts dids)
    (hlen : 2 ≤ dids.length) : ¬g.InStep := by
  intro hstep
  have hshows : g.Shows 1 (dids.get ⟨1, hlen⟩) := by
    rw [DidGrid.Shows, hshown, didTexts, List.getElem?_map, List.getElem?_eq_getElem hlen]
    rfl
  have hentry := (hstep 1 _ hshows).2
  rw [h.unset (UInt16.ofNat 1) (by decide)] at hentry
  cases hentry

theorem SingleRow.addRows {dids : List UInt16} (h : SingleRow g dids) (hg : Uncounted g)
    {l : List DidEntry} (hlen : dids.length + l.length ≤ 1) :
    SingleRow (l.foldl DidGrid.addRow g) (dids ++ l.map DidEntry.id) := by
  rcases l with _ | ⟨e, l⟩
  · rwa [List.map_nil, List.append_nil]
  rw [List.length_cons] at hlen
  obtain rfl : l = [] := List.length_eq_zero_iff.1 (by omega)
  obtain rfl : dids = [] := List.length_eq_zero_iff.1 (by omega)
  have hrows : g.rows.length = 0 := h.length_rows
  refine ⟨?_, Nat.le_refl _, fun did hdid => ?_, fun did hdid => ?_⟩
  · rw [List.foldl_cons, List.foldl_nil, shown_addRow, h.shown]
    rfl
  · obtain rfl := List.mem_singleton.1 hdid
    rw [List.foldl_cons, List.foldl_nil, DidGrid.addRow, hrows]
    exact Function.update_self e.id (UInt16.ofNat 0) g.didToRow
  · obtain rfl := List.mem_singleton.1 hdid
    rw [List.foldl_cons, List.foldl_nil, DidGrid.addRow, hg.cnt]
    exact Function.update_self (0 : UInt16) (some e.id) g.gridToEntry

/-- The maps are right after every row that is added iff there is one row at most. -/
theorem SingleRow.inStep_addRows_iff {dids : List UInt16} (h : SingleRow g dids) (hg : Uncounted g)
    (l : List DidEntry) : (∀ front, front <+: l → (front.foldl DidGrid.addRow g).InStep) ↔
      dids.length + l.length ≤ 1 := by
  constructor
  · intro hall
    by_contra hlen
    have hshown : (l.foldl DidGrid.addRow g).shown = didTexts (dids ++ l.map DidEntry.id) := by
      rw [shown_addRows, h.shown, didTexts, didTexts, didTexts, List.map_append]
    refine (hg.addRows l).not_inStep hshown ?_ (hall l List.prefix_rfl)
    rw [List.length_append, List.length_map]
    omega
  · intro hlen front hfront
    have hle := hfront.length_le
    exact (h.addRows hg (by omega)).inStep

/-! ## Writing values -/

/-- Nothing changes but the contents of rows. -/
structure SameDids (g g' : DidGrid) : Prop where
  shown : g'.shown = g.shown
  didToRow : g'.didToRow = g.didToRow
  gridToEntry : g'.gridToEntry = g.gridToEntry
  cnt : g'.cnt = g.cnt

theorem SameDids.rfl : SameDids g g := ⟨Eq.refl _, Eq.refl _, Eq.refl _, Eq.refl _⟩

theorem SameDids.trans {g'' : DidGrid} (h : SameDids g g') (h' : SameDids g' g'') :
    SameDids g g'' :=
  ⟨h'.shown.trans h.shown, h'.didToRow.trans h.didToRow, h'.gridToEntry.trans h.gridToEntry,
    h'.cnt.trans h.cnt⟩

theorem SameDids.shows_iff (h : SameDids g g') {did : UInt16} :
    g'.Shows (g'.didToRow did).toNat did ↔ g.Shows (g.didToRow did).toNat did := by
  rw [DidGrid.Shows, DidGrid.Shows, h.shown, h.didToRow]

theorem SameDids.singleRow (h : SameDids g g') {dids : List UInt16} (hg : SingleRow g dids) :
    SingleRow g' dids where
  shown := h.shown.trans hg.shown
  length_le := hg.length_le
  didToRow := h.didToRow ▸ hg.didToRow
  gridToEntry := h.gridToEntry ▸ hg.gridToEntry

theorem SameDids.uncounted (h : SameDids g g') (hg : Uncounted g) : Uncounted g' where
  cnt := h.cnt.trans hg.cnt
  unset := h.gridToEntry ▸ hg.unset

theorem sameDids_of_showDid {did : UInt16} (h : g.showDid m did = some g') : SameDids g g' := by
  rw [DidGrid.showDid] at h
  obtain ⟨e, -, h⟩ := Option.bind_eq_some_iff.1 h
  obtain ⟨row, hrow, h⟩ := Option.bind_eq_some_iff.1 h
  obtain rfl := Option.some.inj h
  refine ⟨?_, rfl, rfl, rfl⟩
  -- The row keeps the DID that it displays.
  obtain ⟨hlt, rfl⟩ := List.getElem?_eq_some_iff.1 hrow
  have hlt' : (g.didToRow did).toNat < g.shown.length := (List.length_map _).symm ▸ hlt
  have hset := List.set_getElem_self hlt'
  simp only [DidGrid.shown, List.getElem_map] at hset ⊢
  rw [List.map_set]
  exact hset

theorem sameDids_of_foldlM {dids : List UInt16} (h : dids.foldlM (DidGrid.showDid m) g = some g') :
    SameDids g g' := by
  induction dids generalizing g with
  | nil => exact Option.some.inj h ▸ .rfl
  | cons did dids ih =>
    rw [List.foldlM_cons] at h
    obtain ⟨g₁, hg₁, h⟩ := Option.bind_eq_some_iff.1 h
    exact (sameDids_of_showDid hg₁).trans (ih h)

theorem exists_find {did : UInt16} (h : did ∈ m.ids) : ∃ e, m.find did = some e := by
  obtain ⟨e, he, rfl⟩ := List.mem_map.1 h
  exact Option.isSome_iff_exists.1 (List.find?_isSome.2 ⟨e, he, by simp⟩)

/-- A DID whose row is there is written. -/
theorem exists_showDid {did : UInt16} (hdid : did ∈ m.ids)
    (h : g.Shows (g.didToRow did).toNat did) : ∃ g', g.showDid m did = some g' := by
  obtain ⟨e, he⟩ := exists_find hdid
  rw [DidGrid.Shows, DidGrid.shown, List.getElem?_map, Option.map_eq_some_iff] at h
  obtain ⟨row, hrow, -⟩ := h
  exact ⟨_, Option.bind_eq_some_iff.2 ⟨e, he, Option.bind_eq_some_iff.2 ⟨row, hrow, rfl⟩⟩⟩

/-- DIDs whose rows are there are all written. -/
theorem exists_foldlM_showDid {dids : List UInt16}
    (h : ∀ did ∈ dids, did ∈ m.ids ∧ g.Shows (g.didToRow did).toNat did) :
    ∃ g', dids.foldlM (DidGrid.showDid m) g = some g' := by
  induction dids generalizing g with
  | nil => exact ⟨g, rfl⟩
  | cons did dids ih =>
    obtain ⟨⟨hmem, hshows⟩, h⟩ := List.forall_mem_cons.1 h
    obtain ⟨g₁, hg₁⟩ := exists_showDid hmem hshows
    obtain ⟨g', hg'⟩ := ih fun d hd => (h d hd).imp_right (sameDids_of_showDid hg₁).shows_iff.2
    exact ⟨g', by rw [List.foldlM_cons, hg₁]; exact hg'⟩

/-- A call of `DidTab::On100msTimer` writes in place iff the DIDs have their rows when it
    begins to write. -/
theorem DidTab.tickInPlace_iff {s : DidTab} (h : ∀ did ∈ s.updatedDids, did ∈ s.didList.ids) :
    s.TickInPlace ↔ ∀ did ∈ s.updatedDids,
      s.initialized.grid.Shows (s.initialized.grid.didToRow did).toNat did := by
  constructor
  · intro htick did hdid
    obtain ⟨front, back, hsplit⟩ := List.append_of_mem hdid
    obtain ⟨g, hg, hshows⟩ := htick.inPlace front did back hsplit
    exact (sameDids_of_foldlM hg).shows_iff.1 hshows
  · intro hall
    have hwrites := fun did hdid => And.intro (h did hdid) (hall did hdid)
    refine ⟨?_, fun front did back hsplit => ?_⟩
    · obtain ⟨g, hg⟩ := exists_foldlM_showDid hwrites
      exact ⟨_, congrArg (Option.map _) hg⟩
    · rw [hsplit] at hwrites
      obtain ⟨hfront, hback⟩ := List.forall_mem_append.1 hwrites
      obtain ⟨g, hg⟩ := exists_foldlM_showDid hfront
      exact ⟨g, hg, (sameDids_of_foldlM hg).shows_iff.2 (hback did List.mem_cons_self).2⟩

/-! ## At most one row -/

/-- The table has at most one row, of a DID of the list, and what has been reported is in the
    list. After the first call of `DidTab::On100msTimer`, the list has at most one DID. -/
structure DidInv (s : DidTab) : Prop where
  updated : ∀ did ∈ s.updatedDids, did ∈ s.didList.ids
  uncounted : Uncounted s.grid
  single : ∃ dids, dids ⊆ s.didList.ids ∧ SingleRow s.grid dids
  initialized : s.isDidsInitialized = true → s.didList.ids.length ≤ 1

variable {s t : DidTab} {e : DidEvent}

theorem didInv_init (m : DidMap) : DidInv (didTab m).init where
  updated _ h := absurd h List.not_mem_nil
  uncounted := ⟨rfl, fun _ _ => rfl⟩
  single := ⟨[], List.nil_subset _, rfl, Nat.zero_le 1, (nofun), (nofun)⟩
  initialized := (nofun)

theorem singleRow_cleared (s : DidTab) : SingleRow s.cleared [] :=
  ⟨rfl, Nat.zero_le 1, (nofun), (nofun)⟩

theorem DidInv.uncounted_cleared (hs : DidInv s) : Uncounted s.cleared :=
  ⟨rfl, hs.uncounted.unset⟩

/-- The only row is the one that its DID is written into. -/
theorem SingleRow.shows {dids : List UInt16} (h : SingleRow g dids) {did : UInt16}
    (hdid : did ∈ dids) : g.Shows (g.didToRow did).toNat did := by
  have hpos := List.length_pos_of_mem hdid
  obtain ⟨did', rfl⟩ := List.length_eq_one_iff.1 (Nat.le_antisymm h.length_le hpos)
  obtain rfl := List.mem_singleton.1 hdid
  rw [DidGrid.Shows, h.didToRow _ hdid, h.shown]
  rfl

/-- In a call of `DidTab::On100msTimer` that is spared, the table has at most one row, before
    anything is written into it: that of the only DID, if the rows have just been added. -/
theorem DidInv.initialized_of (hs : DidInv s) (h : AtMostOneRow s .on100msTimer) :
    s.didList.ids.length ≤ 1 ∧ Uncounted s.initialized.grid ∧
      ∃ dids, dids ⊆ s.didList.ids ∧ SingleRow s.initialized.grid dids ∧
        (s.isDidsInitialized = false → s.didList.ids ⊆ dids) := by
  obtain ⟨dids, hsub, hsingle⟩ := hs.single
  rw [AtMostOneRow] at h
  rw [DidTab.initialized]
  split_ifs at h ⊢ with hinit
  · exact ⟨hs.initialized hinit, hs.uncounted, dids, hsub, hsingle, fun hnot =>
      absurd (hnot.symm.trans hinit) Bool.false_ne_true⟩
  · rw [hsingle.length_rows] at h
    have hids : s.didList.ids.length = s.didList.entries.length := List.length_map _
    exact ⟨by omega, hs.uncounted.addRows _, _, List.append_subset.2 ⟨hsub, List.Subset.refl _⟩,
      hsingle.addRows hs.uncounted h, fun _ => List.subset_append_right _ _⟩

theorem DidInv.tickInPlace (hs : DidInv s) (h : AtMostOneRow s .on100msTimer) :
    s.TickInPlace := by
  obtain ⟨hlen, -, dids, hsub, hsingle, hall⟩ := hs.initialized_of h
  refine (DidTab.tickInPlace_iff hs.updated).2 fun did hdid => hsingle.shows ?_
  have hmem := hs.updated did hdid
  by_cases hinit : s.isDidsInitialized = false
  · exact hall hinit hmem
  · rw [Bool.not_eq_false] at hinit
    rw [AtMostOneRow, if_pos hinit] at h
    have hrows : s.initialized.grid.rows ≠ [] := by
      rw [DidTab.initialized, if_pos hinit]
      exact h.resolve_left (List.ne_nil_of_mem hdid)
    obtain ⟨d, hd⟩ := List.exists_mem_of_length_pos
      (hsingle.length_rows ▸ List.length_pos_iff.2 hrows)
    -- The DID of the row is the only one.
    obtain ⟨x, hx⟩ := List.length_eq_one_iff.1
      (Nat.le_antisymm hlen (List.length_pos_of_mem hmem))
    have hd' := hsub hd
    rw [hx, List.mem_singleton] at hmem hd'
    rwa [hmem, ← hd']

/-- After a call of `DidTab::On100msTimer`, the DIDs and the maps are as when it began to
    write. -/
theorem sameDids_of_on100msTimer (h : s.on100msTimer = some t) :
    SameDids s.initialized.grid t.grid ∧ t.updatedDids = [] ∧ t.didList = s.didList ∧
      t.isDidsInitialized = true := by
  obtain ⟨grid, hgrid, rfl⟩ := Option.map_eq_some_iff.1 h
  refine ⟨sameDids_of_foldlM hgrid, rfl, ?_, ?_⟩
  · rw [DidTab.initialized]
    split_ifs <;> rfl
  · rw [DidTab.initialized]
    split_ifs with hinit
    · exact hinit
    · rfl

/-- While there is one row at most, the events that keep the tab in step are those that keep
    it so. -/
theorem DidInv.eventInStep_iff (hs : DidInv s) : EventInStep s e ↔ AtMostOneRow s e := by
  cases e with
  | search pattern => exact Iff.rfl
  | report did r => exact Iff.rfl
  | updateDidList =>
    have hadd := (singleRow_cleared s).inStep_addRows_iff hs.uncounted_cleared s.matching
    rwa [List.length_nil, Nat.zero_add] at hadd
  | on100msTimer =>
    constructor
    · intro h
      rw [AtMostOneRow]
      split_ifs with hinit
      · -- Only a row that is there can be written.
        refine or_iff_not_imp_left.2 fun hne hrows => ?_
        obtain ⟨did, hdid⟩ := List.exists_mem_of_ne_nil _ hne
        have hshows := (DidTab.tickInPlace_iff hs.updated).1 h.2 did hdid
        rw [DidTab.initialized, if_pos hinit, DidGrid.Shows, DidGrid.shown, hrows] at hshows
        cases hshows
      · obtain ⟨dids, -, hsingle⟩ := hs.single
        rw [hsingle.length_rows]
        exact (hsingle.inStep_addRows_iff hs.uncounted _).1 (h.1 (Bool.eq_false_iff.2 hinit)).1
    · intro h
      refine ⟨fun hinit => ⟨?_, fun t ht => ?_⟩, hs.tickInPlace h⟩
      · obtain ⟨dids, -, hsingle⟩ := hs.single
        rw [AtMostOneRow, if_neg (by simp [hinit]), hsingle.length_rows] at h
        exact (hsingle.inStep_addRows_iff hs.uncounted _).2 h
      · obtain ⟨-, -, dids, -, hsingle, -⟩ := hs.initialized_of h
        exact ((sameDids_of_on100msTimer ht).1.singleRow hsingle).inStep

theorem ids_read (m : DidMap) (did : UInt16) (r : DidReading) : (m.read did r).ids = m.ids := by
  rw [DidMap.ids, DidMap.read, List.map_map]
  exact List.map_congr_left fun e _ => e.id_read did r

theorem DidInv.step (hs : DidInv s) (hone : AtMostOneRow s e) (h : s.step e = some t) :
    DidInv t := by
  cases e with
  | search pattern =>
    obtain rfl := Option.some.inj h
    exact ⟨hs.updated, hs.uncounted, hs.single, hs.initialized⟩
  | report did r =>
    obtain ⟨hdid, h⟩ := Option.ite_none_right_eq_some.1 h
    obtain rfl := Option.some.inj h
    have hids := ids_read s.didList did r
    refine ⟨?_, hs.uncounted, hids ▸ hs.single, hids ▸ hs.initialized⟩
    rw [hids]
    exact List.forall_mem_append.2 ⟨hs.updated, List.forall_mem_singleton.2 hdid⟩
  | updateDidList =>
    obtain rfl := Option.some.inj h
    have hsub : s.matching.map DidEntry.id ⊆ s.didList.ids :=
      List.map_subset _ List.filter_sublist.subset
    refine ⟨fun did hdid => hsub hdid, hs.uncounted_cleared.addRows _, ⟨_, hsub, ?_⟩,
      hs.initialized⟩
    exact (singleRow_cleared s).addRows hs.uncounted_cleared
      (by rwa [List.length_nil, Nat.zero_add])
  | on100msTimer =>
    obtain ⟨hsame, hupdated, hlist, -⟩ := sameDids_of_on100msTimer h
    obtain ⟨hlen, huncounted, dids, hsub, hsingle, -⟩ := hs.initialized_of hone
    refine ⟨?_, hsame.uncounted huncounted, ⟨dids, hlist ▸ hsub, hsame.singleRow hsingle⟩,
      fun _ => hlist ▸ hlen⟩
    rw [hupdated]
    exact fun _ hdid => absurd hdid List.not_mem_nil

/-- For every list of DIDs, and along all events: the maps are right after every row that is
    added, and the calls of `DidTab::On100msTimer` write in place, iff the table never gets a
    second row, and nothing has been reported to a later call if there is no row. -/
theorem inStep_iff (m : DidMap) (es : List DidEvent) :
    (didTab m).Meets EventInStep (didTab m).init es ↔
      (didTab m).Meets AtMostOneRow (didTab m).init es :=
  Machine.meets_iff_meets (I := DidInv) (fun hs => hs.eventInStep_iff) (fun hs => hs.step)
    (didInv_init m)

/-- Two DIDs. -/
def twoDids : DidMap where
  entries :=
    [{ id := 1, type := .ui8, name := ['a'] }, { id := 2, type := .ui8, name := ['b'] }]
  sorted := by decide

/-- After the first call of `DidTab::On100msTimer`, the first row displays the first DID, but
    belongs to the entry of the second one, and the second row belongs to none. -/
theorem not_inStep_twoDids :
    (∃ t, (didTab twoDids).run (didTab twoDids).init [.on100msTimer] = some t ∧
      t.grid.Shows 0 1 ∧ t.grid.gridToEntry 0 = some 2 ∧
      t.grid.Shows 1 2 ∧ t.grid.gridToEntry 1 = none) ∧
    ¬(didTab twoDids).Meets EventInStep (didTab twoDids).init [.on100msTimer] := by
  refine ⟨⟨_, rfl, ?_, rfl, ?_, rfl⟩, fun h => ?_⟩
  · rw [DidGrid.Shows]
    decide
  · rw [DidGrid.Shows]
    decide
  · have hone : AtMostOneRow (didTab twoDids).init .on100msTimer :=
      (didInv_init twoDids).eventInStep_iff.1 h.1
    exact absurd hone (by decide)

end QustomKeyboard
