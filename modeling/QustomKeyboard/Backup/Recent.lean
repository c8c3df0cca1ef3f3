import QustomKeyboard.Backup.Spared

/-!
# The most recent backups

With the default format, the time is written with the larger units first, and each
one with the same number of digits. So the names of the backups of an entry are
sorted by their times (`backupName_lt_iff`), and the one that rotation removes is the
oldest one.

Before each backup, rotation leaves at most one fewer than the backups that are
allowed. So a destination holds the most recent ones, if nobody else creates names
that start with the name of the source directory. But the rotation of an entry whose
source directory has a shorter name may find them too: the destination holds the most
recent ones throughout iff such names are never the first ones that are found by another
rotation that removes something (`recent_backups_iff`).
-/

namespace QustomKeyboard

open Theory

/-! ## Names -/

/-- A local time, with a year of four digits. -/
structure Tm where
  year : ℕ
  month : ℕ
  mday : ℕ
  hour : ℕ
  min : ℕ
  sec : ℕ
  year_mem : 1000 ≤ year ∧ year ≤ 9999
  month_mem : 1 ≤ month ∧ month ≤ 12
  mday_mem : 1 ≤ mday ∧ mday ≤ 31
  hour_le : hour ≤ 23
  min_le : min ≤ 59
  sec_le : sec ≤ 60

namespace Tm

/-- The units of the time, the larger ones first. -/
def units (τ : Tm) : List ℕ := [τ.year, τ.month, τ.mday, τ.hour, τ.min, τ.sec]

/-- The first time is earlier than the second one. -/
def Earlier (τ τ' : Tm) : Prop := τ.units < τ'.units

instance : DecidableRel Earlier := fun τ τ' => inferInstanceAs (Decidable (τ.units < τ'.units))

/-- The conversions of the default format: numbers with a fixed number of digits. -/
def conversion (τ : Tm) : Char → WString
  | 'Y' => padded 4 τ.year
  | 'm' => padded 2 τ.month
  | 'd' => padded 2 τ.mday
  | 'H' => padded 2 τ.hour
  | 'M' => padded 2 τ.min
  | 'S' => padded 2 τ.sec
  | c => ['%', c]

/-- `strftime`. -/
def strftime (τ : Tm) : List Char → WString
  | '%' :: c :: format => τ.conversion c ++ strftime τ format
  | c :: format => c :: strftime τ format
  | [] => []

end Tm

/-- `DirectoryBackup::backup_time_format`. -/
def backupTimeFormat : List Char := "_%Y_%m_%d %H_%M_%S".toList

/-- The name of a backup of the entry at the given time. -/
def backupName (e : BackupEntry) (τ : Tm) : WString := e.folderName ++ τ.strftime backupTimeFormat

theorem strftime_backupTimeFormat (τ : Tm) :
    τ.strftime backupTimeFormat =
      '_' :: (padded 4 τ.year ++ '_' :: (padded 2 τ.month ++ '_' :: (padded 2 τ.mday ++ ' ' ::
        (padded 2 τ.hour ++ '_' :: (padded 2 τ.min ++ '_' :: padded 2 τ.sec))))) := by
  have hformat : backupTimeFormat = ['_', '%', 'Y', '_', '%', 'm', '_', '%', 'd', ' ', '%', 'H',
    '_', '%', 'M', '_', '%', 'S'] := by decide
  rw [hformat]
  simp [Tm.strftime, Tm.conversion]

/-- The names are sorted by the times. -/
theorem backupName_lt_iff {e : BackupEntry} {τ τ' : Tm} :
    backupName e τ < backupName e τ' ↔ τ.Earlier τ' := by
  have hyear {τ : Tm} : τ.year < 10 ^ 4 := by have := τ.year_mem; omega
  have hmonth {τ : Tm} : τ.month < 10 ^ 2 := by have := τ.month_mem; omega
  have hmday {τ : Tm} : τ.mday < 10 ^ 2 := by have := τ.mday_mem; omega
  have hhour {τ : Tm} : τ.hour < 10 ^ 2 := by have := τ.hour_le; omega
  have hmin {τ : Tm} : τ.min < 10 ^ 2 := by have := τ.min_le; omega
  have hsec {τ : Tm} : τ.sec < 10 ^ 2 := by have := τ.sec_le; omega
  rw [backupName, backupName, append_left_lt_iff, strftime_backupTimeFormat,
    strftime_backupTimeFormat, Tm.Earlier, Tm.units, Tm.units]
  simp only [List.cons_lt_cons_iff, lt_irrefl, false_or, true_and,
    padded_append_lt_iff hyear hyear, padded_append_lt_iff hmonth hmonth,
    padded_append_lt_iff hmday hmday, padded_append_lt_iff hhour hhour,
    padded_append_lt_iff hmin hmin, padded_lt_padded_iff hsec hsec, and_false, or_false]

/-! ## Runs -/

variable {ι : Type*} [DecidableEq ι] {i : ι} {e : BackupEntry} {s s' : FileSystem ι} {t : WString}
  {d : Directory ι} {m : ℕ} {entries : ι → BackupEntry}

/-- The step is not a backup of the entry, or it succeeds. -/
def OwnSucceeds (entries : ι → BackupEntry) (i : ι) : BackupEvent ι → Prop
  | .doBackup j c => j = i → c.Succeeds (entries i)
  | .create _ _ | .remove _ _ => True

/-- The backups of the entry succeed, and in the destination only they create names that
    start with the name of its source directory. -/
def OnlyCreates (entries : ι → BackupEntry) (i : ι) (t : WString) (s : FileSystem ι)
    (b : BackupEvent ι) : Prop :=
  OwnSucceeds entries i b ∧ ∀ s', backupStep entries s b = some s' → OwnsNames i (entries i) t s'

instance (i : ι) : ∀ b, Decidable (OwnSucceeds entries i b)
  | .doBackup _ _ => inferInstanceAs (Decidable (_ → _))
  | .create _ _ | .remove _ _ => .isTrue trivial

instance (i : ι) (e : BackupEntry) (t : WString) (s : FileSystem ι) :
    Decidable (OwnsNames i e t s) :=
  decidable_of_iff (∀ d ∈ s t, ∀ name ∈ d.candidates e.folderName, (d.item name).owner = some i)
    Iff.rfl

instance (i : ι) (t : WString) : ∀ (s : FileSystem ι) b, Decidable (OnlyCreates entries i t s b) :=
  fun s b => decidable_of_iff (OwnSucceeds entries i b ∧ ∀ s' ∈ backupStep entries s b,
    OwnsNames i (entries i) t s') Iff.rfl

/-- The formatted times of the backups of the entry. -/
def datetimes (i : ι) (es : List (BackupEvent ι)) : List WString :=
  es.filterMap fun
    | .doBackup j c => if j = i then some c.datetime else none
    | .create _ _ | .remove _ _ => none

/-- The destination holds the most recent of the backups of these times, as many as are
    allowed, or all of them, and no others; and all that it holds are complete. -/
def HoldsRecent (i : ι) (e : BackupEntry) (t : WString) (times : List WString)
    (s : FileSystem ι) : Prop :=
  ∃ d, s t = some d ∧
    d.candidates e.folderName =
      ((times.map (e.folderName ++ ·)).rtake e.maxBackups.toInt.toNat).toFinset ∧
    (d.candidates e.folderName).card = min times.length e.maxBackups.toInt.toNat ∧
    ∀ name ∈ d.candidates e.folderName, (d.item name).complete i = true

omit [DecidableEq ι] in
theorem holdsRecent_iff {times : List WString} (hm : e.maxBackups.toInt.toNat = m)
    (htimes : (times.map (e.folderName ++ ·)).Pairwise (· < ·)) :
    HoldsRecent i e t times s ↔
      Holds i e t ((times.map (e.folderName ++ ·)).rtake m).toFinset s := by
  rw [HoldsRecent, hm]
  refine exists_congr fun d => and_congr_right fun _ => ?_
  constructor
  · rintro ⟨hcandidates, -, hcomplete⟩
    exact ⟨hcandidates, hcandidates ▸ hcomplete⟩
  · rintro ⟨hcandidates, hcomplete⟩
    refine ⟨hcandidates, ?_, hcandidates ▸ hcomplete⟩
    rw [hcandidates, card_rtake htimes, List.length_map]

/-- A step keeps the most recent backups iff it is one of the entry, or spares these. -/
theorem holdsRecent_step_iff {b : BackupEvent ι} {times : List WString}
    (hm : (entries i).maxBackups.toInt.toNat = m + 1) (ht : t ∈ (entries i).to_)
    (htimes : ((times ++ datetimes i [b]).map ((entries i).folderName ++ ·)).Pairwise (· < ·))
    (hok : OnlyCreates entries i t s b) (hs : HoldsRecent i (entries i) t times s)
    (h : backupStep entries s b = some s') :
    HoldsRecent i (entries i) t (times ++ datetimes i [b]) s' ↔ SparesBackups entries i t s b := by
  have hmax : (entries i).maxCount = m + 1 := by
    have := maxCount_of_pos (show 0 < (entries i).maxBackups.toInt by omega)
    omega
  have hsorted : (times.map ((entries i).folderName ++ ·)).Pairwise (· < ·) := by
    rw [List.map_append] at htimes
    exact (List.pairwise_append.1 htimes).1
  rw [holdsRecent_iff hm hsorted] at hs
  rw [holdsRecent_iff hm htimes]
  by_cases hown : ∃ c, b = .doBackup i c
  · obtain ⟨c, rfl⟩ := hown
    obtain ⟨⟨hrotation, hcopies⟩, h⟩ := Option.ite_none_right_eq_some.1 h
    have hdatetimes : datetimes i [.doBackup i c] = [c.datetime] := by simp [datetimes]
    have hbackup := hs.doBackup hmax ht hsorted (hok.1 rfl) hrotation hcopies h
    rw [hdatetimes, List.map_append, List.map_singleton]
    exact iff_of_true hbackup fun hne => absurd rfl hne
  · have hother : ∀ c, b ≠ .doBackup i c := fun c hc => hown ⟨c, hc⟩
    have hdatetimes : datetimes i [b] = [] := by
      cases b with
      | doBackup j c =>
        have hj : j ≠ i := fun heq => hother c (heq ▸ rfl)
        simp [datetimes, hj]
      | create _ _ | remove _ _ => rfl
    rw [hdatetimes, List.append_nil]
    refine holds_step_iff hother (fun name hname => ?_) hs (hok.2 s' h) h
    have hmem := List.mem_of_mem_drop (List.mem_toFinset.1 hname)
    obtain ⟨datetime, -, rfl⟩ := List.mem_map.1 hmem
    exact List.prefix_append _ _

/-- In every run of backups of the entry at later and later times, with any backups of
    other entries and any other changes between them, where only the backups of the entry
    create names that start with the name of its source directory, a destination that has
    been empty holds the backups that are the most recent ones, as many as are allowed, or
    all of them, throughout iff the others spare these. -/
theorem recent_backups_iff {es : List (BackupEvent ι)} {τs : List Tm}
    (hmax : 0 < (entries i).maxBackups.toInt) (ht : t ∈ (entries i).to_) (hd : s t = some d)
    (hempty : d.names = ∅)
    (hrun : (directoryBackup entries s).Path (OnlyCreates entries i t) s es s')
    (htimes : datetimes i es = τs.map (Tm.strftime · backupTimeFormat))
    (hlater : τs.Pairwise Tm.Earlier) :
    (∀ es₁ s₁, es₁ <+: es → (directoryBackup entries s).run s es₁ = some s₁ →
      HoldsRecent i (entries i) t (datetimes i es₁) s₁) ↔
      (directoryBackup entries s).Meets (SparesBackups entries i t) s es := by
  obtain ⟨m, hm⟩ : ∃ m, (entries i).maxBackups.toInt.toNat = m + 1 :=
    ⟨(entries i).maxBackups.toInt.toNat - 1, by omega⟩
  have hnames : ((datetimes i es).map ((entries i).folderName ++ ·)).Pairwise (· < ·) := by
    rw [htimes, List.map_map]
    exact List.pairwise_map.2 (hlater.imp fun h => backupName_lt_iff.2 h)
  have hstart : HoldsRecent i (entries i) t (datetimes i []) s := by
    refine ⟨d, hd, ?_⟩
    simp [Directory.candidates, hempty, datetimes]
  refine hrun.forall_prefix_iff_meets hstart fun {es₁ b s₁ s₂} hprefix hok hst hs => ?_
  have happend : datetimes i (es₁ ++ [b]) = datetimes i es₁ ++ datetimes i [b] :=
    List.filterMap_append
  have hsub : datetimes i es₁ ++ datetimes i [b] <+: datetimes i es :=
    happend ▸ hprefix.filterMap _
  rw [happend]
  exact holdsRecent_step_iff hm ht (hnames.sublist (hsub.map _).sublist) hok hs hst

/-- Two entries with the same destination: the name of one source directory is the
    beginning of that of the other one. -/
def srcAndS (i : Bool) : BackupEntry :=
  if i then ⟨"C:/src".toList, ["D:/b".toList], [], 2, false⟩
  else ⟨"C:/s".toList, ["D:/b".toList], [], 1, false⟩

/-- A backup that succeeds. -/
def successfulCall (datetime : String) : Call :=
  ⟨true, false, [⟨false, .removed⟩], datetime.toList, [⟨false, false, [], false⟩]⟩

/-- A time in the first minute of a year. -/
def newYear (sec : ℕ) (h : sec ≤ 60) : Tm :=
  ⟨2024, 1, 1, 0, 0, sec, by decide, by decide, by decide, by decide, by decide, h⟩

/-- The other entry finds a backup of its own first. -/
def sparingRun : List (BackupEvent Bool) :=
  [.doBackup false (successfulCall "_2023_12_31 23_59_59"),
    .doBackup true (successfulCall "_2024_01_01 00_00_00"),
    .create "D:/b".toList "other".toList,
    .doBackup false (successfulCall "_2024_01_01 00_00_00"),
    .doBackup true (successfulCall "_2024_01_01 00_00_01")]

/-- The backups of the entry are spared all along, and the most recent ones are held. -/
theorem recent_backups_iff_sparing :
    (directoryBackup srcAndS fun _ => some .empty).Meets
        (SparesBackups srcAndS true "D:/b".toList) (fun _ => some .empty) sparingRun ∧
      ∀ es₁ s₁, es₁ <+: sparingRun →
        (directoryBackup srcAndS fun _ => some .empty).run (fun _ => some .empty) es₁ = some s₁ →
        HoldsRecent true (srcAndS true) "D:/b".toList (datetimes true es₁) s₁ := by
  have hrun : ((directoryBackup srcAndS fun _ => some .empty).run (fun _ => some .empty)
      sparingRun).isSome = true := by
    decide +kernel
  have hmeets : (directoryBackup srcAndS fun _ => some .empty).Meets
      (SparesBackups srcAndS true "D:/b".toList) (fun _ => some .empty) sparingRun := by
    decide +kernel
  obtain ⟨s', hs'⟩ := Option.isSome_iff_exists.1 hrun
  have htimes : datetimes true sparingRun = [newYear 0 (by decide), newYear 1 (by decide)].map
      (Tm.strftime · backupTimeFormat) := by
    decide +kernel
  exact ⟨hmeets, (recent_backups_iff (by decide) (by decide) rfl rfl
    (.of_meets (by decide +kernel) hs') htimes (by decide +kernel)).2 hmeets⟩

/-- The other entry finds a backup of this one first. -/
def removingRun : List (BackupEvent Bool) :=
  [.doBackup true (successfulCall "_2024_01_01 00_00_00"),
    .doBackup false (successfulCall "_2024_01_01 00_00_01")]

/-- The only backup of an entry is removed by the backup of another one. -/
theorem not_recent_backups :
    ¬∀ (entries : Bool → BackupEntry) (i : Bool) (t : WString) (s s' : FileSystem Bool)
      (d : Directory Bool) (es : List (BackupEvent Bool)) (τs : List Tm),
      0 < (entries i).maxBackups.toInt → t ∈ (entries i).to_ → s t = some d → d.names = ∅ →
      (directoryBackup entries s).Path (OnlyCreates entries i t) s es s' →
      datetimes i es = τs.map (Tm.strftime · backupTimeFormat) → τs.Pairwise Tm.Earlier →
      HoldsRecent i (entries i) t (datetimes i es) s' := by
  intro h
  have hrun : ∃ s', (directoryBackup srcAndS fun _ => some .empty).run (fun _ => some .empty)
      removingRun = some s' ∧ ∀ d ∈ s' "D:/b".toList, d.candidates "src".toList = ∅ := by
    decide +kernel
  obtain ⟨s', hs', hnone⟩ := hrun
  obtain ⟨d, hd, -, hcard, -⟩ := h srcAndS true "D:/b".toList (fun _ => some .empty) s' .empty
    removingRun [newYear 0 (by decide)] (by decide) (by decide) rfl rfl
    (.of_meets (by decide +kernel) hs') (by decide +kernel) (List.pairwise_singleton _ _)
  have hfolder : (srcAndS true).folderName = "src".toList := by decide
  rw [hfolder, hnone d hd] at hcard
  exact absurd hcard (by decide +kernel)

end QustomKeyboard
