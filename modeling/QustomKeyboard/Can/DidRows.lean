import Mathlib
import QustomKeyboard.Can.DidGrid

/-!
# The rows of the DIDs

The map from the DIDs to their rows (`didToRow`) is right about all rows that are there, as
long as the first call of `DidTab::On100msTimer` finds no rows: it adds rows for all DIDs, also
for those that have one already. What is reported is then written into the row of its own DID
iff all the DIDs that have been reported are displayed (`writesInPlace_iff_displayed`): those
that are filtered out keep a row that is not theirs.
-/

namespace QustomKeyboard

open Theory

/-- The first call of `DidTab::On100msTimer` finds no rows. -/
def FindsNoRows (s : DidTab) : DidEvent → Prop
  | .on100msTimer => s.isDidsInitialized = false → s.grid.rows = []
  | _ => True

/-- What a call of `DidTab::On100msTimer` writes is written in place. -/
def WritesInPlace (s : DidTab) : DidEvent → Prop
  | .on100msTimer => s.TickInPlace
  | _ => True

/-- A call of `DidTab::On100msTimer` finds the DIDs that have been reported in the table. -/
def ReportsDisplayed (s : DidTab) : DidEvent → Prop
  | .on100msTimer =>
    ∀ did ∈ s.updatedDids, hexadecimal did.toNat ∈ s.initialized.grid.shown
  | _ => True

/-- The rows display the DIDs, and `didToRow` is right about them. -/
structure Displays (g : DidGrid) (dids : List UInt16) : Prop where
  shown : g.shown = didTexts dids
  didToRow : ∀ (r : ℕ) (did : UInt16), dids[r]? = some did → (g.didToRow did).toNat = r

variable {g g' : DidGrid} {dids : List UInt16} {e : DidEntry} {s t : DidTab}

/-! ## Rows that are found -/

/-- A DID has its row iff it is displayed. -/
theorem Displays.shows_iff (h : Displays g dids) {did : UInt16} :
    g.Shows (g.didToRow did).toNat did ↔ did ∈ dids := by
  rw [DidGrid.Shows, h.shown, didTexts, List.getElem?_map]
  constructor
  · intro hshows
    obtain ⟨did', hdid', heq⟩ := Option.map_eq_some_iff.1 hshows
    exact hexadecimal_toNat_inj heq ▸ List.mem_of_getElem? hdid'
  · intro hmem
    obtain ⟨r, hr⟩ := List.mem_iff_getElem?.1 hmem
    rw [h.didToRow r did hr, hr]
    rfl

theorem Displays.mem_shown_iff (h : Displays g dids) {did : UInt16} :
    hexadecimal did.toNat ∈ g.shown ↔ did ∈ dids := by
  rw [h.shown, didTexts]
  constructor
  · intro hmem
    obtain ⟨did', hdid', heq⟩ := List.mem_map.1 hmem
    exact hexadecimal_toNat_inj heq ▸ hdid'
  · exact fun hmem => List.mem_map_of_mem hmem

/-- There are no more than 2¹⁶ DIDs. -/
theorem length_le_of_nodup (h : dids.Nodup) : dids.length ≤ 2 ^ 16 := by
  have hnodup : (dids.map UInt16.toNat).Nodup := h.map fun _ _ => UInt16.toNat_inj.1
  have hsub : dids.map UInt16.toNat ⊆ List.range (2 ^ 16) := by
    intro n hn
    obtain ⟨did, -, rfl⟩ := List.mem_map.1 hn
    exact List.mem_range.2 did.toNat_lt
  have hle := (hnodup.subperm hsub).length_le
  rwa [List.length_map, List.length_range] at hle

theorem Displays.addRow (h : Displays g dids) (hnodup : (dids ++ [e.id]).Nodup) :
    Displays (g.addRow e) (dids ++ [e.id]) where
  shown := by rw [shown_addRow, h.shown, didTexts, didTexts, List.map_append, List.map_singleton]
  didToRow r did hr := by
    have hlt : dids.length < 2 ^ 16 := by
      have hle := length_le_of_nodup hnodup
      rwa [List.length_append, List.length_singleton] at hle
    rcases Nat.lt_or_ge r dids.length with hold | hnew
    · -- The rows that are there already are those of other DIDs.
      rw [List.getElem?_append_left hold] at hr
      have hne : did ≠ e.id := by
        rintro rfl
        exact (List.nodup_append'.1 hnodup).2.2 (List.mem_of_getElem? hr) List.mem_cons_self
      rw [DidGrid.addRow]
      exact (congrArg UInt16.toNat (Function.update_of_ne hne _ _)).trans (h.didToRow r did hr)
    · rw [List.getElem?_append_right hnew, List.getElem?_singleton] at hr
      obtain ⟨hr, heq⟩ := Option.ite_none_right_eq_some.1 hr
      obtain rfl := Option.some.inj heq
      rw [DidGrid.addRow, length_rows_of_shown h.shown]
      refine (congrArg UInt16.toNat (Function.update_self _ _ _)).trans ?_
      rw [UInt16.toNat_ofNat', Nat.mod_eq_of_lt hlt]
      omega

theorem Displays.addRows (h : Displays g dids) {l : List DidEntry}
    (hnodup : (dids ++ l.map DidEntry.id).Nodup) :
    Displays (l.foldl DidGrid.addRow g) (dids ++ l.map DidEntry.id) := by
  induction l generalizing g dids with
  | nil => rwa [List.map_nil, List.append_nil]
  | cons e l ih =>
    rw [List.map_cons, List.append_cons] at hnodup ⊢
    exact ih (h.addRow (List.nodup_append'.1 hnodup).1) hnodup

theorem SameDids.displays (h : SameDids g g') (hg : Displays g dids) : Displays g' dids where
  shown := h.shown.trans hg.shown
  didToRow := h.didToRow ▸ hg.didToRow

theorem displays_of_rows_eq_nil (h : g.rows = []) : Displays g [] where
  shown := by rw [DidGrid.shown, h]; rfl
  didToRow r did hr := by cases hr

/-! ## Along the events -/

theorem nodup_ids (m : DidMap) : m.ids.Nodup :=
  List.pairwise_map.2 (m.sorted.imp fun h => UInt16.ne_of_lt h)

/-- `didToRow` is right about the rows, and what has been reported is in the list. -/
structure DisplayInv (s : DidTab) : Prop where
  updated : ∀ did ∈ s.updatedDids, did ∈ s.didList.ids
  displays : ∃ dids, Displays s.grid dids

/-- It is still right when the values are going to be written. -/
theorem DisplayInv.initialized (hs : DisplayInv s) (h : FindsNoRows s .on100msTimer) :
    ∃ dids, Displays s.initialized.grid dids := by
  rw [DidTab.initialized]
  split_ifs with hinit
  · exact hs.displays
  · have hnone := displays_of_rows_eq_nil (h (Bool.eq_false_iff.2 hinit))
    exact ⟨_, hnone.addRows (nodup_ids s.didList)⟩

theorem DisplayInv.step {ev : DidEvent} (hs : DisplayInv s) (hfirst : FindsNoRows s ev)
    (h : s.step ev = some t) : DisplayInv t := by
  cases ev with
  | search pattern =>
    obtain rfl := Option.some.inj h
    exact ⟨hs.updated, hs.displays⟩
  | report did r =>
    obtain ⟨hdid, h⟩ := Option.ite_none_right_eq_some.1 h
    obtain rfl := Option.some.inj h
    refine ⟨?_, hs.displays⟩
    rw [ids_read]
    exact List.forall_mem_append.2 ⟨hs.updated, List.forall_mem_singleton.2 hdid⟩
  | updateDidList =>
    obtain rfl := Option.some.inj h
    have hsub : (s.matching.map DidEntry.id).Sublist s.didList.ids :=
      List.filter_sublist.map DidEntry.id
    have hcleared : Displays s.cleared [] := displays_of_rows_eq_nil rfl
    exact ⟨fun did hdid => hsub.subset hdid,
      _, hcleared.addRows (hsub.nodup (nodup_ids s.didList))⟩
  | on100msTimer =>
    obtain ⟨hsame, hupdated, -, -⟩ := sameDids_of_on100msTimer h
    obtain ⟨dids, hdids⟩ := hs.initialized hfirst
    refine ⟨?_, dids, hsame.displays hdids⟩
    rw [hupdated]
    exact fun _ hdid => absurd hdid List.not_mem_nil

theorem displayInv_init (m : DidMap) : DisplayInv (didTab m).init where
  updated _ h := absurd h List.not_mem_nil
  displays := ⟨[], displays_of_rows_eq_nil rfl⟩

theorem DisplayInv.writesInPlace_iff {ev : DidEvent} (hs : DisplayInv s)
    (hfirst : FindsNoRows s ev) : WritesInPlace s ev ↔ ReportsDisplayed s ev := by
  cases ev with
  | on100msTimer =>
    obtain ⟨dids, hdids⟩ := hs.initialized hfirst
    refine (DidTab.tickInPlace_iff hs.updated).trans ?_
    refine forall_congr' fun did => forall_congr' fun _ => ?_
    rw [hdids.shows_iff, hdids.mem_shown_iff]
  | search pattern => exact Iff.rfl
  | updateDidList => exact Iff.rfl
  | report did r => exact Iff.rfl

/-- Along all events, if the first call of `DidTab::On100msTimer` finds no rows: all calls write
    in place iff they find the DIDs that have been reported in the table. -/
theorem writesInPlace_iff_displayed (m : DidMap) {es : List DidEvent}
    (hfirst : (didTab m).Meets FindsNoRows (didTab m).init es) :
    (didTab m).Meets WritesInPlace (didTab m).init es ↔
      (didTab m).Meets ReportsDisplayed (didTab m).init es :=
  Machine.meets_congr (I := DisplayInv) (fun hs hok h => hs.step hok h)
    (fun hs hok => hs.writesInPlace_iff hok) (displayInv_init m) hfirst

/-- What is reported of a DID that is filtered out is shown as the value of another one. -/
example : ((didTab twoDids).run (didTab twoDids).init
      [.on100msTimer, .search ['b'], .updateDidList, .on100msTimer,
        .report 1 { valueStr := ['5'], nrc := 0, lastUpdate := none }, .on100msTimer]).map
      (fun s => s.grid.rows.map fun row => (row.name, row.value)) = some [(['b'], ['5'])] := by
  decide

end QustomKeyboard
