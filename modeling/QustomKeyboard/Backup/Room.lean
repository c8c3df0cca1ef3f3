import QustomKeyboard.Backup.Retained
import QustomKeyboard.Theory.Cells

/-!
# Making room

Rotation is to leave room for a new backup, however many there are: it removes
one name from a destination with `maxBackups` of them or more, whenever it gets
there. So it makes room iff there were not more of them already, and fails
altogether if none are allowed and there are none (`makesRoom_iff`).

The destinations are the cells of a store: rotation runs in each of them
(`rotateIn`), and of the names there it is only their number that matters
(`countdown`). A destination may be listed several times.
-/

namespace QustomKeyboard

open Theory

variable {ι : Type*}

/-- Rotation in the destination `t`, on what is there. -/
def rotateIn (e : BackupEntry) (t : WString) : Machine (Option (Directory ι)) RotationOutcome where
  init := none
  step c o := (rotate e (fun _ => c) (t, o)).map (· t)

/-- Rotation, on the number of names that count as backups, if `limit` of them are too
    many. The event is whether the destination cannot be created, where it is missing. -/
def countdown (limit : ℕ) : Machine (Option ℕ) Bool where
  init := none
  step
    | none, error => some (if error then none else some 0)
    | some k, _ =>
      if limit ≤ k then if k = 0 then none else some (some (k - 1)) else some (some k)

/-- What the file system makes of the rotation in a destination, if only the creation of
    the destination may fail. -/
def removing (error : Bool) : RotationOutcome where
  createDirectoryError := error
  removeAll := .removed

/-- How many names count as backups, where there is a destination. -/
def count (e : BackupEntry) (c : Option (Directory ι)) : Option ℕ :=
  c.map fun d => (d.candidates e.folderName).card

/-- Rotation makes room for a backup: it gets through, and leaves fewer than `maxBackups`
    names in every destination that there was (none if none are allowed); with a new
    backup, there are at most this many (one if none are allowed). -/
def MakesRoom (e : BackupEntry) (s : FileSystem ι) (errors : List Bool) : Prop :=
  ∃ s', backupRotation e s (errors.map removing) = some s' ∧
    ∀ t ∈ e.to_, ∀ d, s t = some d → ∃ d', s' t = some d' ∧
      (d'.candidates e.folderName).card ≤ max e.maxCount 1 - 1 ∧
      ∀ name owner, ((d'.create name owner).candidates e.folderName).card ≤ max e.maxCount 1

/-- What there is in a destination leaves room after visits with these errors: `k` names
    are not more than are removed, and not less if all have to be. A missing destination
    is created for the last visit only, if none are allowed. -/
def HasRoom (limit : ℕ) (errors : List Bool) : Option ℕ → Prop
  | some k => if limit = 0 then k = errors.length else k < limit + errors.length
  | none => limit = 0 → ∀ error ∈ errors.dropLast, error = true

/-! ## The countdown -/

variable {limit k : ℕ} {errors : List Bool}

/-- If some are allowed, every visit takes one away, as long as there are too many. -/
theorem countdown_run_some (h : 0 < limit) :
    (countdown limit).run (some k) errors =
      some (some (min k (max (limit - 1) (k - errors.length)))) := by
  induction errors generalizing k with
  | nil => simp [Machine.run]
  | cons error errors ih =>
    rw [Machine.run, List.length_cons]
    simp only [countdown]
    split_ifs with hle hk
    · omega
    · rw [Option.bind_some]
      refine ih.trans ?_
      congr 2
      omega
    · rw [Option.bind_some]
      refine ih.trans ?_
      congr 2
      omega

/-- If none are allowed, every visit needs one to take away. -/
theorem countdown_run_zero :
    (countdown 0).run (some k) errors =
      if errors.length ≤ k then some (some (k - errors.length)) else none := by
  induction errors generalizing k with
  | nil => simp [Machine.run]
  | cons error errors ih =>
    rw [Machine.run, List.length_cons]
    simp only [countdown, if_pos (Nat.zero_le k)]
    split_ifs with hk hle hle
    · omega
    · rfl
    · rw [Option.bind_some]
      refine ih.trans ?_
      rw [if_pos (by omega), Nat.sub_sub, Nat.add_comm 1]
    · rw [Option.bind_some]
      refine ih.trans ?_
      rw [if_neg (by omega)]

/-- A missing destination, if none are allowed: nothing may be left to visit once it has
    been created. -/
theorem countdown_run_none :
    (∃ n, (countdown 0).run none errors = some n) ↔ ∀ error ∈ errors.dropLast, error = true := by
  induction errors with
  | nil => simp [Machine.run]
  | cons error errors ih =>
    rw [Machine.run]
    cases error with
    | true =>
      refine ih.trans ?_
      cases errors with
      | nil => simp
      | cons error errors => simp
    | false =>
      simp only [countdown]
      rw [if_neg Bool.false_ne_true, Option.bind_some]
      change (∃ n, (countdown 0).run (some 0) errors = some n) ↔ _
      rw [countdown_run_zero]
      cases errors with
      | nil => simp
      | cons error errors => simp

/-- The countdown gets through and leaves few enough iff there is room for it. -/
theorem countdown_iff (n : Option ℕ) :
    (∃ n', (countdown limit).run n errors = some n' ∧
      (n.isSome → ∃ k', n' = some k' ∧ k' ≤ max limit 1 - 1)) ↔ HasRoom limit errors n := by
  rcases Nat.eq_zero_or_pos limit with rfl | hpos
  · cases n with
    | none => simpa [HasRoom] using countdown_run_none
    | some k =>
      rw [countdown_run_zero, HasRoom, if_pos rfl]
      split_ifs with hle
      · simp
        omega
      · simp
        omega
  · cases n with
    | none =>
      have htotal : ∀ n error, ∃ n', (countdown limit).step n error = some n' := by
        rintro (_ | k) error
        · exact ⟨_, rfl⟩
        · simp only [countdown]
          split_ifs with hle hk
          · omega
          · exact ⟨_, rfl⟩
          · exact ⟨_, rfl⟩
      obtain ⟨n', hn'⟩ := Machine.run_of_total htotal none errors
      exact iff_of_true ⟨n', hn', by simp⟩ fun h => absurd h hpos.ne'
    | some k =>
      rw [countdown_run_some hpos, HasRoom, if_neg hpos.ne']
      simp
      omega

/-! ## The destinations -/

variable {e : BackupEntry} {s : FileSystem ι}

/-- Rotation is a step of a store of destinations. -/
theorem rotate_eq_store (x : WString × RotationOutcome) :
    rotate e s x = (Machine.store (rotateIn e)).step s x := by
  obtain ⟨t, o⟩ := x
  simp only [Machine.store, rotateIn]
  cases hd : s t with
  | none =>
    rw [rotate_of_missing hd, rotate_of_missing rfl]
    split_ifs with ho
    · simp [← hd]
    · simp
  | some d =>
    rcases candidates_cases e d with hlt | ⟨hzero, hempty⟩ | ⟨hge, name, hname⟩
    · rw [rotate_of_lt hd hlt, rotate_of_lt rfl hlt]
      simp [← hd]
    · rw [rotate_of_empty hd hzero hempty, rotate_of_empty rfl hzero hempty]
      rfl
    · rw [rotate_of_isLeast hd hge hname, rotate_of_isLeast rfl hge hname]
      simp

/-- In a destination, rotation counts down. -/
theorem count_rotateIn (t : WString) (c : Option (Directory ι)) (error : Bool) :
    ((rotateIn e t).step c (removing error)).map (count e) =
      (countdown e.maxCount).step (count e c) error := by
  cases c with
  | none =>
    simp only [rotateIn, rotate_of_missing]
    cases error with
    | true => rfl
    | false => simp [removing, count, countdown, Directory.empty, Directory.candidates]
  | some d =>
    simp only [rotateIn, count, countdown, Option.map_some]
    rcases candidates_cases e d with hlt | ⟨hzero, hempty⟩ | ⟨hge, name, hname⟩
    · rw [rotate_of_lt rfl hlt, if_neg hlt.not_ge]
      rfl
    · rw [rotate_of_empty rfl hzero hempty, if_pos (hzero ▸ Nat.zero_le _),
        if_pos (Finset.card_eq_zero.2 hempty)]
      rfl
    · rw [rotate_of_isLeast rfl hge hname, if_pos hge, if_neg (Finset.card_ne_zero_of_mem hname.1)]
      simp [removing, RemoveAll.apply, Directory.candidates_remove, count,
        Finset.card_erase_of_mem hname.1]

theorem rotation_eq_store (e : BackupEntry) :
    (rotation e : Machine (FileSystem ι) _) = Machine.store (rotateIn e) := by
  have hstep : rotate e = (Machine.store (rotateIn e) : Machine (FileSystem ι) _).step :=
    funext fun s => funext fun x => rotate_eq_store x
  rw [rotation, hstep]
  rfl

/-- A new name is one more at most. -/
theorem card_candidates_create_le (d : Directory ι) (name f : WString) (owner : Option ι) :
    ((d.create name owner).candidates f).card ≤ (d.candidates f).card + 1 := by
  by_cases h : f <+: name
  · rw [Directory.candidates_create h]
    exact Finset.card_insert_le _ _
  · rw [Directory.candidates_create_of_other h]
    exact Nat.le_succ _

/-- Rotation makes room iff there is room for it in every destination. -/
theorem makesRoom_iff (e : BackupEntry) (s : FileSystem ι) (errors : List Bool) :
    MakesRoom e s errors ↔
      ∀ t ∈ e.to_, HasRoom e.maxCount (eventsOf t (e.to_.zip errors)) (count e (s t)) := by
  -- A run is one of every destination, which is one of the countdown.
  have hcount (t : WString) : ((rotateIn e t).run (s t)
      (eventsOf t (e.to_.zip (errors.map removing)))).map (count e) =
        (countdown e.maxCount).run (count e (s t)) (eventsOf t (e.to_.zip errors)) := by
    rw [eventsOf_zip_map]
    exact Machine.run_map (count_rotateIn t) _ _
  simp only [MakesRoom, backupRotation, rotation_eq_store, Machine.run_store_iff, ← countdown_iff,
    ← hcount]
  constructor
  · rintro ⟨s', hrun, hleft⟩ t ht
    refine ⟨count e (s' t), by rw [hrun t]; rfl, fun hsome => ?_⟩
    obtain ⟨d, hd⟩ : ∃ d, s t = some d := by simpa [count, Option.isSome_iff_exists] using hsome
    obtain ⟨d', hd', hcard, -⟩ := hleft t ht d hd
    exact ⟨_, by rw [hd']; rfl, hcard⟩
  · intro h
    have hcell : ∀ t, ∃ c, (rotateIn e t).run (s t)
        (eventsOf t (e.to_.zip (errors.map removing))) = some c ∧
          (t ∈ e.to_ → (count e (s t)).isSome →
            ∃ k, count e c = some k ∧ k ≤ max e.maxCount 1 - 1) := by
      intro t
      by_cases ht : t ∈ e.to_
      · obtain ⟨n, hn, hroom⟩ := h t ht
        obtain ⟨c, hc, rfl⟩ := Option.map_eq_some_iff.1 hn
        exact ⟨c, hc, fun _ => hroom⟩
      · exact ⟨s t, by rw [eventsOf_zip_of_notMem ht]; rfl, fun h => absurd h ht⟩
    choose s' hrun hroom using hcell
    refine ⟨s', hrun, fun t ht d hd => ?_⟩
    obtain ⟨k, hk, hle⟩ := hroom t ht (by rw [hd]; rfl)
    obtain ⟨d', hd', rfl⟩ := Option.map_eq_some_iff.1 hk
    refine ⟨d', hd', hle, fun name owner => ?_⟩
    have := card_candidates_create_le d' name e.folderName owner
    omega

/-- An entry that allows one backup. -/
def loweredEntry : BackupEntry where
  from_ := "C:/src".toList
  to_ := ["D:/b".toList]
  ignoreList := []
  maxBackups := 1
  calculateHash := false

/-- Its destination, from when two backups were allowed. -/
def loweredDestination : FileSystem Unit :=
  Function.update (fun _ => none) "D:/b".toList
    (some ((Directory.empty.create "src_1".toList none).create "src_2".toList none))

/-- One of the two backups is left, so that there will be two again. -/
theorem not_makesRoom_lowered : ¬MakesRoom loweredEntry loweredDestination [false] := by
  rintro ⟨s', hrun, hleft⟩
  have hcount : (backupRotation loweredEntry loweredDestination [removing false]).map
      (fun s => count loweredEntry (s "D:/b".toList)) = some (some 1) := by
    decide +kernel
  obtain ⟨d', hd', hcard, -⟩ := hleft "D:/b".toList List.mem_cons_self _ (Function.update_self ..)
  rw [show [removing false] = [false].map removing from rfl, hrun, Option.map_some, hd'] at hcount
  simp only [count, Option.map_some, Option.some.injEq] at hcount
  rw [hcount] at hcard
  exact absurd hcard (by decide)

end QustomKeyboard
